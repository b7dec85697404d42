import Diagd.Udpst.LoadStream

/-!
# The end of a downstream test

What the sender may still do after `stop` has been raised or `done` has been
closed, and that the main goroutine, waiting in `<-sendEnd`, is never left
waiting for good.

The flags are looked at once a turn, so a turn that has begun is completed.
Its size is bounded: each of the two transmitters catches up with at most 20
bursts, and a burst has at most 101 datagrams.
-/

namespace Diagd.Udpst

open GoSlice GoStd Resumption

namespace Sending

variable {t : RateTable} {ipv6 : Bool}

/-! ## The size of a burst -/

/-- The datagrams of one call of `sendBurst`, at most. -/
abbrev maxBatch : Nat := maxBurstSize + 1

/-- A burst may offer so many datagrams, and no more once they are accepted. -/
def limiting : Protocol sendSig Nat where
  Allowed n
    | .loadEcho | .now | .rand _ => True
    | .writeBatch msgs => msgs.length ≤ n
  next
    | n, .writeBatch _, r => n - taken r
    | n, .loadEcho, _ | n, .now, _ | n, .rand _, _ => n

section Limit

variable {n : Nat}

/-- What is left of a batch is within what is left of the limit. -/
theorem limiting_views {w : Order} (hw : w.Fits) {k : Nat} :
    Views (bursting ipv6 w k) limiting fun p n => n + p.accepted = maxBatch := by
  rintro p n o hn hallowed
  match p, o, hallowed with
  | .begun, .loadEcho, _ => exact ⟨trivial, fun _ => hn⟩
  | .loaded _, .now, _ => exact ⟨trivial, fun _ => hn⟩
  | .building _ _, .now, _ => exact ⟨trivial, fun _ => hn⟩
  | .building _ _, .rand _, _ => exact ⟨trivial, fun _ => hn⟩
  | .building _ _, .writeBatch msgs, hbatch =>
      have hn : n = maxBatch := hn
      have hle : msgs.length ≤ n := hn ▸ hbatch.count.trans_le hw.count_le
      refine ⟨hle, fun r => ?_⟩
      have htaken := taken_le r
      show n - taken r + taken r = maxBatch
      omega
  | .offering _ _ batch j, .writeBatch _, ⟨hbatch, hj, rfl⟩ =>
      have hn : n + j = maxBatch := hn
      have hlen : batch.length ≤ maxBatch := hbatch.count.trans_le hw.count_le
      have hle : (batch.drop j).length ≤ n := by
        rw [List.length_drop]
        omega
      refine ⟨hle, fun r => ?_⟩
      have htaken := taken_le r
      show n - taken r + (j + taken r) = maxBatch
      omega

/-- A burst hands over its datagrams and the add-on, none of them twice. -/
theorem send_limited (ht : AllBounded t.rows) (c : Burst t) {k : Nat} {st : SendState}
    (hst : Ready k st) : Conforms limiting maxBatch (c.send ipv6 st) fun _ _ => True :=
  ((send_conforms ht c hst).view (limiting_views (c.order_fits ht ipv6)) rfl).mono
    fun _ _ _ => trivial

theorem Conforms.limited_mono {p : SendProg SendState} {m : Nat} (hle : m ≤ n)
    (h : Conforms limiting m p fun _ _ => True) : Conforms limiting n p fun _ _ => True := by
  refine (h.view (R := fun m n => m ≤ n) ?_ hle).mono fun _ _ _ => trivial
  intro m n o hle hallowed
  cases o with
  | writeBatch msgs =>
      exact ⟨Nat.le_trans hallowed hle, fun r => Nat.sub_le_sub_right hle (taken r)⟩
  | loadEcho | now | rand => exact ⟨trivial, fun _ => hle⟩

/-- One operation of a burst: what the kernel takes is off the limit. -/
theorem limiting_op {o : SendOp} {k : o.Res → SendProg SendState}
    (h : Conforms limiting n (.op o k) fun _ _ => True) (r : o.Res) :
    ∃ n', n' + (acceptedBy o r).length ≤ n ∧ Conforms limiting n' (k r) fun _ _ => True := by
  obtain ⟨hallowed, hk⟩ := Conforms.op_iff.mp h
  refine ⟨_, ?_, hk r⟩
  cases o with
  | loadEcho => exact Nat.le_refl n
  | now => exact Nat.le_refl n
  | rand m => exact Nat.le_refl n
  | writeBatch msgs =>
      have htaken := taken_le r
      have hlen : (acceptedBy (.writeBatch msgs) r).length = taken r := by
        show (msgs.take (taken r)).length = taken r
        rw [List.length_take, Nat.min_eq_left htaken]
      have hmsgs : msgs.length ≤ n := hallowed
      rw [hlen]
      show n - taken r + taken r ≤ n
      omega

end Limit

/-! ## What the turn in progress may still send -/

/-- A burst of a transmitter, not the stop indication. -/
def Burst.isTest : Burst t → Bool
  | .first _ | .second _ => true
  | .stop => false

/-- The bursts that satisfy `p` and that the sender may still begin before it
is at the top of the loop again. A turn that looks at `stop` next counts as
`fresh`. -/
def Stage.allowance (p : Burst t → Bool) (fresh : Nat) : Stage t → Nat
  | .starting | .top | .pausing _ | .returned => 0
  | .polling => fresh
  | .picking | .sleeping _ _ | .napping _ _ _ | .spinning _ _ | .waking _ => 2 * maxCaught
  | .sending rest _ | .bursting _ rest _ => rest.countP p

/-- The sender may begin no more bursts that satisfy `p` than its stage
allows: it will not enter another turn, or that turn has none. -/
structure Winding (v : View) (p : Burst t → Bool) (fresh : Nat) : Prop where
  enter : v.done = false → fresh = 0
  stop : (p .stop).toNat ≤ fresh
  goOn : v.stop = false → 2 * maxCaught ≤ fresh

section Allowance

variable {v : View} {env : SendEnv} {x x' : Sender t} {p : Burst t → Bool} {fresh : Nat}

theorem Stage.Asleep.allowance {i : Fin t.rows.length} {wake : Time} {stage : Stage t}
    (h : stage.Asleep i wake) : stage.allowance p fresh = 2 * maxCaught := by
  cases stage <;> first | rfl | exact h.elim

theorem serve_count_le (tx : Transmitter) (row : Rate) (next now : Time) :
    (tx.serve row next now).1 ≤ maxCaught := by
  unfold Transmitter.serve
  split
  · rename_i hact
    rw [Pacing.wake_count (Transmitter.interval_pos hact)]
    exact Nat.min_le_left _ _
  · exact Nat.zero_le _

/-- A turn has at most 20 bursts of each transmitter. -/
theorem turn_length_le (sch : Schedule) (i : Fin t.rows.length) (now : Time) :
    (sch.turn (.row i now)).2.length ≤ 2 * maxCaught := by
  simp only [Schedule.turn]
  split
  · exact Nat.zero_le _
  · have h₁ := serve_count_le .first (t.rows.get i) sch.next1 now
    have h₂ := serve_count_le .second (t.rows.get i) sch.next2 now
    rw [List.length_append, List.length_replicate, List.length_replicate]
    omega

/-- One step: what is begun is taken off the allowance. -/
theorem allowance_step (hw : Winding v p fresh) (hmove : SenderMoves ipv6 v env x x') :
    x'.begun.countP p + x'.stage.allowance p fresh ≤
      x.begun.countP p + x.stage.allowance p fresh := by
  cases hmove with
  | enter hstage hdone =>
      rw [hstage]
      exact Nat.add_le_add_left (hw.enter hdone).le _
  | stop hstage =>
      rw [hstage]
      refine Nat.add_le_add_left ?_ _
      show [Burst.stop].countP p ≤ fresh
      rw [List.countP_singleton]
      have hstop := hw.stop
      cases hp : p .stop <;> simp_all
  | goOn hstage hstop =>
      rw [hstage]
      exact Nat.add_le_add_left (hw.goOn hstop) _
  | doze hstage hto =>
      show x.begun.countP p + _ ≤ _
      rw [hstage.allowance, hto.allowance]
  | rouse hstage =>
      rw [hstage.allowance]
      exact Nat.le_refl _
  | turn hstage =>
      rw [hstage]
      exact Nat.add_le_add_left (List.countP_le_length.trans (turn_length_le _ _ _)) _
  | begin hstage =>
      rw [hstage]
      show (x.begun ++ [_]).countP p + List.countP p _ ≤ x.begun.countP p + List.countP p (_ :: _)
      rw [List.countP_append, List.countP_singleton, List.countP_cons]
      omega
  | returns hstage | op hstage | pick hstage =>
      rw [hstage]
      exact Nat.le_refl _
  | start hstage | leave hstage | idle hstage | finish hstage | pause hstage
  | resume hstage | quit hstage =>
      rw [hstage]
      exact Nat.add_le_add_left (Nat.zero_le _) _

/-- The turn in progress and its burst keep to their sizes. -/
structure Limited (x : Sender t) : Prop where
  turn : x.stage.allowance (fun _ => true) (2 * maxCaught) ≤ 2 * maxCaught
  burst : ∀ p rest d, x.stage = .bursting p rest d → Conforms limiting maxBatch p fun _ _ => True

theorem Limited.step (ht : AllBounded t.rows) (h : Limited x) (hnum : Numbered ipv6 x)
    (hmove : SenderMoves ipv6 v env x x') : Limited x' := by
  have hturn := h.turn
  cases hmove with
  | begin hstage =>
      rw [hstage] at hturn
      refine ⟨Nat.le_trans ?_ hturn, ?_⟩
      · exact (List.sublist_cons_self _ _).countP_le
      · intro p rest d hb
        cases hb
        exact send_limited ht _ (hnum.ready hstage)
  | op hstage =>
      rw [hstage] at hturn
      refine ⟨hturn, ?_⟩
      intro p rest d hb
      cases hb
      obtain ⟨n, hle, hk⟩ := limiting_op (h.burst _ _ _ hstage) (answer v.echo env _)
      exact Conforms.limited_mono (Nat.le_of_add_right_le hle) hk
  | returns hstage =>
      rw [hstage] at hturn
      exact ⟨hturn, nofun⟩
  | doze hstage hto =>
      refine ⟨hto.allowance.le, ?_⟩
      rintro p rest d rfl
      exact hto.elim
  | stop hstage =>
      have hone : 1 ≤ 2 * maxCaught := by decide
      exact ⟨List.countP_le_length.trans hone, nofun⟩
  | turn hstage => exact ⟨List.countP_le_length.trans (turn_length_le _ _ _), nofun⟩
  | start | leave | finish | pause | resume | quit | idle => exact ⟨Nat.zero_le _, nofun⟩
  | enter | goOn | pick | rouse => exact ⟨Nat.le_refl _, nofun⟩

theorem allowance_mono {q : Burst t → Bool} {fresh' : Nat} (hpq : ∀ c, p c = true → q c = true)
    (hfresh : fresh ≤ fresh') (stage : Stage t) :
    stage.allowance p fresh ≤ stage.allowance q fresh' := by
  cases stage with
  | polling => exact hfresh
  | sending rest d => exact List.countP_mono_left fun c _ => hpq c
  | bursting r rest d => exact List.countP_mono_left fun c _ => hpq c
  | starting | top | picking | sleeping | napping | spinning | waking | pausing | returned =>
      exact Nat.le_refl _

/-- The sender has handed over no more than `total` datagrams, the rest of
its turn included. -/
def Contained (fresh total : Nat) (x : Sender t) : Prop :=
  ∃ n, (∀ p rest d, x.stage = .bursting p rest d → Conforms limiting n p fun _ _ => True) ∧
    x.sent.length + n + maxBatch * x.stage.allowance (fun _ => true) fresh ≤ total

theorem Contained.of_limited (h : Limited x) :
    Contained (2 * maxCaught) (x.sent.length + maxBatch * (2 * maxCaught + 1)) x := by
  have hmul := Nat.mul_le_mul_left maxBatch h.turn
  have hsplit : maxBatch * (2 * maxCaught + 1) = maxBatch * (2 * maxCaught) + maxBatch :=
    Nat.mul_succ _ _
  exact ⟨maxBatch, h.burst, by omega⟩

theorem Contained.step (ht : AllBounded t.rows) {total : Nat}
    (hw : Winding (t := t) v (fun _ => true) fresh)
    (h : Contained fresh total x) (hnum : Numbered ipv6 x) (hmove : SenderMoves ipv6 v env x x') :
    Contained fresh total x' := by
  obtain ⟨n, hlimit, hle⟩ := h
  have hbudget := allowance_step hw hmove
  -- a step that sends nothing and leaves no burst in progress
  have hquiet : x'.sent = x.sent → x'.begun = x.begun → (∀ p rest d, x'.stage ≠ .bursting p rest d) →
      Contained fresh total x' := by
    intro hsent hbegun hstage
    refine ⟨0, fun p rest d hb => (hstage p rest d hb).elim, ?_⟩
    rw [hbegun] at hbudget
    have hmul := Nat.mul_le_mul_left maxBatch (Nat.le_of_add_le_add_left hbudget)
    rw [hsent]
    omega
  cases hmove with
  | begin hstage =>
      refine ⟨maxBatch, ?_, ?_⟩
      · intro p rest d hb
        cases hb
        exact send_limited ht _ (hnum.ready hstage)
      · rw [hstage] at hle
        simp only [Stage.allowance, List.countP_cons, if_true, Nat.mul_succ] at hle ⊢
        omega
  | op hstage =>
      obtain ⟨n', hle', hk⟩ := limiting_op (hlimit _ _ _ hstage) (answer v.echo env _)
      refine ⟨n', ?_, ?_⟩
      · intro p rest d hb
        cases hb
        exact hk
      · rw [hstage] at hle
        simp only [Stage.allowance, List.length_append] at hle ⊢
        omega
  | doze hstage hto =>
      refine hquiet rfl rfl ?_
      rintro p rest d rfl
      exact hto
  | start | leave | enter | stop | goOn | idle | pick | rouse | turn | finish | pause | returns
  | resume | quit => exact hquiet rfl rfl nofun

end Allowance

end Sending

/-! ## The whole test -/

section Test

variable {t : RateTable} {s : Session} {x x' y : DownSystem t} {l : DownLabel} {ls : List DownLabel}

/-- What holds of the ends of the two goroutines, and of the burst in
progress. -/
structure Ending (s : Session) (x : DownSystem t) : Prop where
  numbered : Sending.Numbered s.ipv6 x.sender
  closed : x.main = .joining → x.done = true
  joined : x.main = .summed → x.sender.stage = .returned
  limited : Sending.Limited x.sender

/-- A sender that has returned does not move. -/
theorem not_moves_of_returned {ipv6 : Bool} {v : Sending.View} {env : Sending.SendEnv}
    {snd snd' : Sending.Sender t} (h : snd.stage = .returned) :
    ¬ Sending.SenderMoves ipv6 v env snd snd' := by
  intro hmove
  cases hmove with
  | doze hstage | rouse hstage =>
      rw [h] at hstage
      exact hstage
  | start hstage | leave hstage | enter hstage | stop hstage | goOn hstage | idle hstage
  | pick hstage | turn hstage | finish hstage | pause hstage | begin hstage | returns hstage
  | op hstage | resume hstage | quit hstage =>
      rw [h] at hstage
      cases hstage

theorem Ending.step (ht : AllBounded t.rows) (h : Ending s x) (hstep : x.step s l = some x') :
    Ending s x' := by
  obtain ⟨-, -, y, hmove, rfl⟩ := downMoves_of_step hstep
  cases hmove with
  | goOn hmain | expire hmain | ignore hmain | fail hmain | hear hmain | finish hmain | steer hmain =>
      exact ⟨h.numbered, nofun, nofun, h.limited⟩
  | close hmain => exact ⟨h.numbered, fun _ => rfl, nofun, h.limited⟩
  | join hmain hsender => exact ⟨h.numbered, nofun, fun _ => hsender, h.limited⟩
  | sender hmove =>
      refine ⟨h.numbered.step ht hmove, h.closed, fun hmain => ?_, h.limited.step ht h.numbered hmove⟩
      exact (not_moves_of_returned (h.joined hmain) hmove).elim
  | timer | panic => exact ⟨h.numbered, h.closed, h.joined, h.limited⟩

theorem ending_of_reachable {srv : Server} {start : Time} {x : DownSystem srv.table}
    (hx : DownReachable srv s start x) : Ending s x := by
  have ht := allBounded_table srv
  exact hx.invariant ⟨numbered_init srv s start, nofun, nofun, Nat.zero_le _, nofun⟩
    fun _ _ _ h hstep => h.step ht hstep

/-- A step changes the sender by one of its moves, or not at all, and no step
takes a flag back. -/
theorem step_sender (hstep : x.step s l = some x') :
    (x.stop = true → x'.stop = true) ∧ (x.done = true → x'.done = true) ∧
      (x'.sender = x.sender ∨
        ∃ env, Sending.SenderMoves s.ipv6 x.view env x.sender x'.sender) := by
  obtain ⟨-, -, y, hmove, rfl⟩ := downMoves_of_step hstep
  cases hmove with
  | close | timer => exact ⟨fun h => by simp [h], fun h => by simp [h], .inl rfl⟩
  | sender hmove => exact ⟨id, id, .inr ⟨_, hmove⟩⟩
  | goOn | expire | ignore | fail | hear | finish | steer | join | panic => exact ⟨id, id, .inl rfl⟩

/-- Once `stop` is raised, the test bursts left are those of the turn in
progress. -/
theorem run_stopped (hstop : x.stop = true)
    (hrun : Transition.run (DownSystem.step s) x ls = some y) :
    y.sender.begun.countP Sending.Burst.isTest ≤
      x.sender.begun.countP Sending.Burst.isTest +
        x.sender.stage.allowance Sending.Burst.isTest 0 := by
  have hinv := Transition.run_preserves (I := fun z : DownSystem t => z.stop = true ∧
    z.sender.begun.countP Sending.Burst.isTest + z.sender.stage.allowance Sending.Burst.isTest 0 ≤
      x.sender.begun.countP Sending.Burst.isTest + x.sender.stage.allowance Sending.Burst.isTest 0)
    ?_ ⟨hstop, Nat.le_refl _⟩ hrun
  · exact Nat.le_of_add_right_le hinv.2
  · rintro z l z' ⟨hz, hle⟩ hstep
    obtain ⟨hkeep, -, hsender⟩ := step_sender hstep
    refine ⟨hkeep hz, ?_⟩
    rcases hsender with heq | ⟨env, hmove⟩
    · rw [heq]
      exact hle
    · have hw : Sending.Winding z.view (Sending.Burst.isTest (t := t)) 0 :=
        ⟨fun _ => rfl, Nat.le_refl 0, fun h => absurd (hz.symm.trans h) Bool.noConfusion⟩
      exact (Sending.allowance_step hw hmove).trans hle

/-- Once `done` is closed, that holds of all bursts, and so of the datagrams. -/
theorem run_closed (ht : AllBounded t.rows) (hx : Ending s x) (hdone : x.done = true)
    (hrun : Transition.run (DownSystem.step s) x ls = some y) :
    y.sender.begun.length ≤ x.sender.begun.length +
        x.sender.stage.allowance (fun _ => true) (2 * Sending.maxCaught) ∧
      Sending.Contained (2 * Sending.maxCaught)
        (x.sender.sent.length + Sending.maxBatch * (2 * Sending.maxCaught + 1)) y.sender := by
  have hinv := Transition.run_preserves (I := fun z : DownSystem t => z.done = true ∧ Ending s z ∧
    z.sender.begun.countP (fun _ => true) +
        z.sender.stage.allowance (fun _ => true) (2 * Sending.maxCaught) ≤
      x.sender.begun.countP (fun _ => true) +
        x.sender.stage.allowance (fun _ => true) (2 * Sending.maxCaught) ∧
    Sending.Contained (2 * Sending.maxCaught)
      (x.sender.sent.length + Sending.maxBatch * (2 * Sending.maxCaught + 1)) z.sender)
    ?_ ⟨hdone, hx, Nat.le_refl _, .of_limited hx.limited⟩ hrun
  · obtain ⟨-, -, hle, hcontained⟩ := hinv
    rw [List.countP_true] at hle
    exact ⟨Nat.le_of_add_right_le hle, hcontained⟩
  · rintro z l z' ⟨hz, hending, hle, hcontained⟩ hstep
    obtain ⟨-, hkeep, hsender⟩ := step_sender hstep
    refine ⟨hkeep hz, hending.step ht hstep, ?_⟩
    rcases hsender with heq | ⟨env, hmove⟩
    · rw [heq]
      exact ⟨hle, hcontained⟩
    · have hw : Sending.Winding (t := t) z.view (fun _ => true) (2 * Sending.maxCaught) :=
        ⟨fun h => absurd (hz.symm.trans h) Bool.noConfusion, by decide, fun _ => Nat.le_refl _⟩
      exact ⟨(Sending.allowance_step hw hmove).trans hle,
        hcontained.step ht hw hending.numbered hmove⟩

/-- After the summary nothing is sent. -/
theorem run_summed (ht : AllBounded t.rows) (hx : Ending s x) (hmain : x.main = .summed)
    (hrun : Transition.run (DownSystem.step s) x ls = some y) :
    y.main = .summed ∧ y.sender = x.sender := by
  have hinv := Transition.run_preserves (I := fun z : DownSystem t => Ending s z ∧
    z.main = .summed ∧ z.sender = x.sender) ?_ ⟨hx, hmain, rfl⟩ hrun
  · exact hinv.2
  · rintro z l z' ⟨hz, hzmain, hsender⟩ hstep
    refine ⟨hz.step ht hstep, ?_⟩
    obtain ⟨-, -, w, hmove, rfl⟩ := downMoves_of_step hstep
    cases hmove with
    | goOn h | expire h | ignore h | fail h | hear h | finish h | steer h | close h | join h =>
        rw [hzmain] at h
        cases h
    | timer hat hne => exact (hne hzmain).elim
    | sender hmove => exact (not_moves_of_returned (hz.joined hzmain) hmove).elim
    | panic => exact ⟨hzmain, hsender⟩

end Test

/-! ## Results -/

/-- **Winding down.** From every state of a downstream test, whatever happens
afterwards: once `stop` is raised, at most 40 more test bursts are begun; once
`done` is closed, at most 40 more bursts of any kind, and at most 41 · 101
more datagrams are accepted by the kernel; and after the summary, none. -/
theorem wind_down (srv : Server) (s : Session) (start : Time) {x y : DownSystem srv.table}
    {ls : List DownLabel} (hx : DownReachable srv s start x)
    (hrun : Transition.run (DownSystem.step s) x ls = some y) :
    (x.stop = true → y.sender.begun.countP Sending.Burst.isTest ≤
        x.sender.begun.countP Sending.Burst.isTest + 40) ∧
      (x.done = true → y.sender.begun.length ≤ x.sender.begun.length + 40 ∧
        y.sender.sent.length ≤ x.sender.sent.length + 41 * 101) ∧
      (x.main = .summed → y.sender.sent = x.sender.sent) := by
  have ht := allBounded_table srv
  have hending := ending_of_reachable hx
  refine ⟨fun hstop => ?_, fun hdone => ?_, fun hmain => ?_⟩
  · have hle := Sending.allowance_mono (p := Sending.Burst.isTest) (fun _ _ => rfl)
      (Nat.zero_le (2 * Sending.maxCaught)) x.sender.stage
    exact (run_stopped hstop hrun).trans (Nat.add_le_add_left (hle.trans hending.limited.turn) _)
  · obtain ⟨hbegun, n, -, hsent⟩ := run_closed ht hending hdone hrun
    refine ⟨hbegun.trans (Nat.add_le_add_left hending.limited.turn _), ?_⟩
    have htotal : Sending.maxBatch * (2 * Sending.maxCaught + 1) = 41 * 101 := by decide
    omega
  · rw [(run_summed ht hending hmain hrun).2]

/-- From the moment the timer fires, in the middle of a turn: the test datagram
of that turn is still sent. -/
theorem wind_down_oneStop : ∃ x y, DownReachable briefServer briefSession 0 x ∧ x.stop = true ∧
    Transition.run (DownSystem.step briefSession) x afterTimer = some y ∧
    y.sender.sent.length = 2 ∧
    x.sender.begun.countP Sending.Burst.isTest < y.sender.begun.countP Sending.Burst.isTest ∧
    y.sender.begun.countP Sending.Burst.isTest ≤ x.sender.begun.countP Sending.Burst.isTest + 40 := by
  have hfirst : (Transition.run (DownSystem.step briefSession)
      (DownSystem.init briefServer briefSession 0) untilTimer).map
        (fun x => (x.stop, x.sender.begun.countP Sending.Burst.isTest,
          (Transition.run (DownSystem.step briefSession) x afterTimer).map
            fun y => (y.sender.sent.length, y.sender.begun.countP Sending.Burst.isTest))) =
      some (true, 0, some (2, 1)) := by
    decide +kernel
  obtain ⟨x, hx, heq⟩ := Option.map_eq_some_iff.mp hfirst
  obtain ⟨hstop, hrest⟩ := Prod.mk.inj heq
  obtain ⟨hbefore, hafter⟩ := Prod.mk.inj hrest
  obtain ⟨y, hy, hcounts⟩ := Option.map_eq_some_iff.mp hafter
  obtain ⟨hsent, htests⟩ := Prod.mk.inj hcounts
  have hreach : DownReachable briefServer briefSession 0 x := ⟨_, hx⟩
  refine ⟨x, y, hreach, hstop, hy, hsent, ?_, (wind_down briefServer _ 0 hreach hy).1 hstop⟩
  rw [hbefore, htests]
  exact Nat.zero_lt_one

/-! ### The test can always be ended

With the client silent from any state on, the watchdog ends the main loop,
`done` wakes the sender, and the sender returns. -/

/-- Nothing arrives on the socket, and the socket does not fail. -/
def DownLabel.Silent : DownLabel → Prop
  | .main (.read (.datagram _)) | .main (.read (.failed _)) => False
  | .main (.read (.timeout _)) | .main (.check _) | .main (.proceed _) | .timer _ | .sender _ => True

/-- Silence can bring the test to its summary. -/
def Finishes {t : RateTable} (s : Session) (x : DownSystem t) : Prop :=
  ∃ ls y, (∀ l ∈ ls, DownLabel.Silent l) ∧ Transition.run (DownSystem.step s) x ls = some y ∧
    y.main = .summed

section Finish

variable {t : RateTable} {s : Session} {x x' : DownSystem t} {l : DownLabel}

theorem Finishes.step (hl : l.Silent) (hstep : x.step s l = some x') (h : Finishes s x') :
    Finishes s x := by
  obtain ⟨ls, y, hsilent, hrun, hy⟩ := h
  exact ⟨l :: ls, y, List.forall_mem_cons.mpr ⟨hl, hsilent⟩,
    Transition.run_cons.mpr ⟨x', hstep, hrun⟩, hy⟩

theorem step_of_move (hok : x.crashed = none) (hle : x.clock ≤ l.time) (hmove : x.move s l = some x') :
    x.step s l = some { x' with clock := l.time } := by
  rw [DownSystem.step, if_pos ⟨hok, hle⟩, hmove]
  rfl

/-- The main goroutine waits in `<-sendEnd`. -/
structure Draining (s : Session) (x : DownSystem t) : Prop where
  streaming : Streaming s x
  done : x.done = true
  main : x.main = .joining

/-- A step of the sender. -/
theorem Draining.send (ht : AllBounded t.rows) (h : Draining s x) (env : Sending.SendEnv)
    (hle : x.clock ≤ env.now) (snd : Sending.Sender t)
    (hstep : x.sender.step s.ipv6 x.view env = some (.ok snd))
    (hrest : Draining s { x with sender := snd, clock := env.now } →
      Finishes s { x with sender := snd, clock := env.now }) : Finishes s x := by
  have hmove : x.move s (.sender env) = some { x with sender := snd } := by
    show (x.sender.step s.ipv6 x.view env).map _ = _
    rw [hstep]
    rfl
  have hwhole := step_of_move (l := .sender env) h.streaming.uncrashed hle hmove
  exact .step (l := .sender env) trivial hwhole
    (hrest ⟨h.streaming.step ht hwhole, h.done, h.main⟩)

theorem Draining.returned (h : Draining s x) (hstage : x.sender.stage = .returned) : Finishes s x := by
  have hmove : x.move s (.main (.proceed x.clock)) = some { x with main := .summed } := by
    show x.stepMain s (.proceed x.clock) = _
    simp only [DownSystem.stepMain, h.main, hstage]
  have hwhole := step_of_move (l := .main (.proceed x.clock)) h.streaming.uncrashed (le_refl _) hmove
  exact .step (l := .main (.proceed x.clock)) trivial hwhole ⟨[], _, by simp, rfl, rfl⟩

variable (ht : AllBounded t.rows)
include ht

theorem Draining.top (h : Draining s x) (hstage : x.sender.stage = .top) : Finishes s x := by
  have hdone : x.view.done = true := h.done
  refine h.send ht ⟨x.clock, 0, none, false⟩ (le_refl _)
    ({ x.sender with stage := .returned }) ?_ fun h' => h'.returned rfl
  simp only [Sending.Sender.step, hstage, hdone, if_true]

theorem Draining.pausing (h : Draining s x) {ends : Time} (hstage : x.sender.stage = .pausing ends) :
    Finishes s x := by
  have hdone : x.view.done = true := h.done
  refine h.send ht ⟨x.clock, 0, none, true⟩ (le_refl _)
    ({ x.sender with stage := .returned }) ?_ fun h' => h'.returned rfl
  simp only [Sending.Sender.step, hstage, Sending.selectDone, hdone, if_true, Option.map_some]

/-- A burst in progress comes to its end, whatever is left of it. -/
theorem Draining.bursting {rest : List (Sending.Burst t)} {d : Option Duration}
    (hrest : ∀ y : DownSystem t, Draining s y → y.sender.stage = .sending rest d → Finishes s y)
    {p : SendProg Sending.SendState} (h : Draining s x)
    (hstage : x.sender.stage = .bursting p rest d) : Finishes s x := by
  induction p generalizing x with
  | ret st =>
      refine h.send ht ⟨x.clock, 0, none, false⟩ (le_refl _)
        ({ x.sender with stage := .sending rest d, st := st }) ?_ fun h' => hrest _ h' rfl
      simp only [Sending.Sender.step, hstage]
  | crash e =>
      have hready := h.streaming.numbered.stage
      rw [hstage] at hready
      exact (Conforms.not_crash hready).elim
  | op o k ih =>
      let env : Sending.SendEnv := ⟨x.clock, 0, none, false⟩
      refine h.send ht env (le_refl _)
        ({ x.sender with
          stage := .bursting (k (Sending.answer x.view.echo env o)) rest d
          sent := x.sender.sent ++ Sending.acceptedBy o (Sending.answer x.view.echo env o)
          log := x.sender.log.modifyLast (Sending.BurstLog.note x.view env o) })
        ?_ fun h' => ih _ h' rfl
      simp only [Sending.Sender.step, hstage]

theorem Draining.sending {rest : List (Sending.Burst t)} {d : Option Duration} (h : Draining s x)
    (hstage : x.sender.stage = .sending rest d) : Finishes s x := by
  induction rest generalizing x with
  | nil =>
      cases d with
      | none =>
          refine h.send ht ⟨x.clock, 0, none, false⟩ (le_refl _)
            ({ x.sender with stage := .top }) ?_ fun h' => h'.top ht rfl
          simp only [Sending.Sender.step, hstage]
      | some pause =>
          refine h.send ht ⟨x.clock, 0, none, false⟩ (le_refl _)
            ({ x.sender with stage := .pausing (x.clock + pause) }) ?_
            fun h' => h'.pausing ht rfl
          simp only [Sending.Sender.step, hstage]
  | cons c cs ih =>
      refine h.send ht ⟨x.clock, 0, none, false⟩ (le_refl _)
        ({ x.sender with
          stage := .bursting (c.send s.ipv6 x.sender.st) cs d
          begun := x.sender.begun ++ [c]
          log := x.sender.log ++ [{}] })
        ?_ fun h' => h'.bursting ht (fun y hy => ih hy) rfl
      simp only [Sending.Sender.step, hstage]

theorem Draining.waking (h : Draining s x) {i : Fin t.rows.length}
    (hstage : x.sender.stage = .waking i) : Finishes s x := by
  refine h.send ht ⟨x.clock, 0, none, false⟩ (le_refl _)
    (x.sender.serve (.row i x.clock) none) ?_ fun h' => h'.sending ht rfl
  simp only [Sending.Sender.step, hstage]

theorem Draining.sleeping (h : Draining s x) {i : Fin t.rows.length} {wake : Time}
    (hstage : x.sender.stage = .sleeping i wake) : Finishes s x := by
  have hwake : wake - max x.clock wake ≤ 0 := sub_nonpos.mpr (le_max_right _ _)
  refine h.send ht ⟨max x.clock wake, 0, none, false⟩ (le_max_left _ _)
    ({ x.sender with stage := .waking i }) ?_ fun h' => h'.waking ht rfl
  simp only [Sending.Sender.step, hstage, Sending.Sender.slept, if_pos hwake]

theorem Draining.napping (h : Draining s x) {i : Fin t.rows.length} {wake ends : Time}
    (hstage : x.sender.stage = .napping i wake ends) : Finishes s x := by
  have hdone : x.view.done = true := h.done
  refine h.send ht ⟨x.clock, 0, none, true⟩ (le_refl _)
    ({ x.sender with stage := .waking i }) ?_ fun h' => h'.waking ht rfl
  simp only [Sending.Sender.step, hstage, Sending.selectDone, hdone, if_true, Option.map_some]

theorem Draining.spinning (h : Draining s x) {i : Fin t.rows.length} {wake : Time}
    (hstage : x.sender.stage = .spinning i wake) : Finishes s x := by
  have hwake : ¬ max x.clock wake < wake := not_lt.mpr (le_max_right _ _)
  refine h.send ht ⟨max x.clock wake, 0, none, false⟩ (le_max_left _ _)
    ({ x.sender with stage := .waking i }) ?_ fun h' => h'.waking ht rfl
  simp only [Sending.Sender.step, hstage, if_neg hwake]

theorem Draining.picking (h : Draining s x) (hstage : x.sender.stage = .picking) : Finishes s x := by
  obtain ⟨i, hi⟩ : ∃ i, Sending.rowAt t x.view.index = .ok i := by
    refine ⟨_, dif_pos ?_⟩
    show t.HasRow x.d.index
    rw [h.streaming.steered.index]
    exact h.streaming.steered.row
  have hstep : x.sender.step s.ipv6 x.view ⟨x.clock, 0, none, false⟩ =
      some (.ok { x.sender with stage := x.sender.picked x.clock i }) := by
    simp only [Sending.Sender.step, hstage, hi]
    rfl
  refine h.send ht _ (le_refl _) _ hstep fun h' => ?_
  cases hwake : x.sender.sch.wakeAt (t.rows.get i) with
  | none =>
      have hpicked : x.sender.picked x.clock i = .pausing (x.clock + 10 * millisecond) := by
        rw [Sending.Sender.picked, hwake]
      exact h'.pausing ht hpicked
  | some wake =>
      have hpicked : x.sender.picked x.clock i = .sleeping i wake := by
        rw [Sending.Sender.picked, hwake]
      exact h'.sleeping ht hpicked

theorem Draining.polling (h : Draining s x) (hstage : x.sender.stage = .polling) : Finishes s x := by
  cases hstop : x.stop with
  | true =>
      have hv : x.view.stop = true := hstop
      refine h.send ht ⟨x.clock, 0, none, false⟩ (le_refl _)
        (x.sender.serve .stop (some (50 * millisecond))) ?_ fun h' => h'.sending ht rfl
      simp only [Sending.Sender.step, hstage, hv, if_true]
  | false =>
      have hv : x.view.stop = false := hstop
      refine h.send ht ⟨x.clock, 0, none, false⟩ (le_refl _)
        ({ x.sender with stage := .picking }) ?_ fun h' => h'.picking ht rfl
      simp only [Sending.Sender.step, hstage, hv, Bool.false_eq_true, if_false]

theorem Draining.finishes (h : Draining s x) : Finishes s x := by
  cases hs : x.sender.stage with
  | starting =>
      refine h.send ht ⟨x.clock, 0, none, false⟩ (le_refl _)
        ({ x.sender with
          stage := .top
          sch := Sending.Schedule.init x.clock ((5 + 0 % 46 : Nat) * millisecond) })
        ?_ fun h' => h'.top ht rfl
      simp only [Sending.Sender.step, hs]
      rfl
  | top => exact h.top ht hs
  | polling => exact h.polling ht hs
  | picking => exact h.picking ht hs
  | sleeping i wake => exact h.sleeping ht hs
  | napping i wake ends => exact h.napping ht hs
  | spinning i wake => exact h.spinning ht hs
  | waking i => exact h.waking ht hs
  | sending rest d => exact h.sending ht hs
  | bursting p rest d => exact h.bursting ht (fun _ hy hys => Draining.sending ht hy hys) hs
  | pausing ends => exact h.pausing ht hs
  | returned => exact h.returned hs

omit ht

/-- A step of the main goroutine that leaves the rest to the next one. -/
theorem Streaming.main_step (ht : AllBounded t.rows) (h : Streaming s x) (ev : MainEvent)
    (hl : DownLabel.Silent (.main ev)) (hle : x.clock ≤ ev.time) (x' : DownSystem t)
    (hmove : x.stepMain s ev = some x')
    (hrest : Streaming s { x' with clock := ev.time } → Finishes s { x' with clock := ev.time }) :
    Finishes s x := by
  have hwhole := step_of_move (l := .main ev) h.uncrashed hle hmove
  exact .step hl hwhole (hrest (h.step ht hwhole))

variable (ht : AllBounded t.rows)
include ht

theorem Streaming.finishes_leaving (h : Streaming s x) (hmain : x.main = .leaving) : Finishes s x := by
  refine h.main_step ht (.proceed x.clock) trivial (le_refl _)
    ({ x with done := true, main := .joining }) ?_
    fun h' => Draining.finishes ht ⟨h', rfl, rfl⟩
  simp only [DownSystem.stepMain, hmain]

/-- The watchdog expires. -/
theorem Streaming.finishes_top (h : Streaming s x) (hmain : x.main = .top) : Finishes s x := by
  have hlate : x.d.watchdog < max x.clock (x.d.watchdog + 1) :=
    lt_of_lt_of_le (lt_add_one _) (le_max_right _ _)
  refine h.main_step ht (.check (max x.clock (x.d.watchdog + 1))) trivial (le_max_left _ _)
    ({ x with d := { x.d with running := false }, main := .leaving }) ?_
    fun h' => h'.finishes_leaving ht rfl
  simp only [DownSystem.stepMain, hmain, if_true, DownTest.prepare, if_pos hlate,
    Bool.false_eq_true, if_false]

theorem Streaming.finishes (h : Streaming s x) (hending : Ending s x) : Finishes s x := by
  cases hmain : x.main with
  | top => exact h.finishes_top ht hmain
  | reading =>
      refine h.main_step ht (.read (.timeout x.clock)) trivial (le_refl _)
        ({ x with main := .top }) ?_ fun h' => h'.finishes_top ht rfl
      simp only [DownSystem.stepMain, hmain, if_true]
  | applying st =>
      by_cases htest : st.testAction = testActionTest
      · refine h.main_step ht (.proceed x.clock) trivial (le_refl _)
          ({ x with d := x.d.steer st, main := .top }) ?_ fun h' => h'.finishes_top ht rfl
        simp only [DownSystem.stepMain, hmain, htest, ne_eq, not_true, if_false]
      · refine h.main_step ht (.proceed x.clock) trivial (le_refl _)
          ({ x with d := { x.d with running := false }, main := .leaving }) ?_
          fun h' => h'.finishes_leaving ht rfl
        simp only [DownSystem.stepMain, hmain, htest, ne_eq, not_false_eq_true, if_true]
  | leaving => exact h.finishes_leaving ht hmain
  | joining => exact Draining.finishes ht ⟨h, hending.closed hmain, hmain⟩
  | summed => exact ⟨[], x, by simp, rfl, hmain⟩

end Finish

/-- **A silent client ends the test.** From every state of a downstream test
there is a way to its summary on which nothing more arrives: the goroutines
never wait for each other for good. -/
theorem silence_ends_test (srv : Server) (s₀ : Session) (req : TestActPDU) (rx : Rx) (start : Time)
    {x : DownSystem srv.table} (hx : DownReachable srv (s₀.activate srv req rx) start x) :
    ∃ ls y, (∀ l ∈ ls, DownLabel.Silent l) ∧
      Transition.run (DownSystem.step (s₀.activate srv req rx)) x ls = some y ∧ y.main = .summed ∧
      y.sender.stage = .returned := by
  obtain ⟨ls, y, hsilent, hrun, hmain⟩ :=
    (streaming_of_reachable hx).finishes (allBounded_table srv) (ending_of_reachable hx)
  exact ⟨ls, y, hsilent, hrun, hmain, (ending_of_reachable (hx.run hrun)).joined hmain⟩

theorem silence_ends_test_brief : ∃ ls y, (∀ l ∈ ls, DownLabel.Silent l) ∧
    Transition.run (DownSystem.step briefSession) (DownSystem.init briefServer briefSession 0) ls =
      some y ∧ y.main = .summed ∧ y.sender.stage = .returned :=
  silence_ends_test briefServer _ _ _ 0 ⟨[], rfl⟩

end Diagd.Udpst

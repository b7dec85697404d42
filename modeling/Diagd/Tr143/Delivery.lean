import Diagd.Tr143.Slots

/-!
# What a transfer delivers

A `ResponseWriter` takes at most the block it is given, and reports an error
if it takes less (`Thread.lawful`, the contract of `io.Writer`). Under that
contract, whatever else goes on in the server: a sized download never writes
more than the size it has announced, it is logged as complete exactly if it
has written that size, and anything less is a failed `Write`; a timed
download that is logged as complete has lasted for the time asked for. The
slice expression of the loop never panics.
-/

namespace Diagd.Tr143

open GoStd Account

/-! ## The contract of `io.Writer` -/

/-- At most the block is taken, and less of it only with an error. -/
def Thread.lawful (t : Thread) (a : Act) : Bool :=
  match t.stage, a with
  | .writing _ _ n _, .write w failed => decide (0 ≤ w) && decide (w ≤ n) && (w == n || failed)
  | _, _ => true

def HTTPEvent.lawful (s : HTTPServer) : HTTPEvent → Bool
  | .act i _ a => s.threads[i]?.all fun t => t.lawful a
  | .arrive _ | .live _ _ => true

/-! ## On plan -/

/-- The bytes written, as an integer. -/
def Thread.written (t : Thread) : Int := total Int64.toInt t.writes

/-- Request `i` has had a `Write` that failed. -/
def WriteFailed (evs : List HTTPEvent) (i : Nat) : Prop :=
  ∃ now w, HTTPEvent.act i now (.write w true) ∈ evs

def ReadFailed (evs : List HTTPEvent) (i : Nat) : Prop :=
  ∃ now n, HTTPEvent.act i now (.read n .failed) ∈ evs

/-- What the loop of a download waits for, if it begins at `start`. -/
def Plan.goal? (start : Time) : Plan → Option Goal
  | .sized size => some (.size size)
  | .timed d => some (.deadline (start + d))
  | .upload => none

/-- A sized download has written so much, and no more than its size. -/
def Goal.Within (goal : Goal) (sent : Int64) (t : Thread) : Prop :=
  match goal with
  | .size n => sent.toInt = t.written ∧ 0 ≤ sent.toInt ∧ sent.toInt ≤ max 0 n.toInt
  | .deadline _ => True

/-- What a plan comes to. -/
def Delivered (evs : List HTTPEvent) (clock : Time) (i : Nat) (t : Thread) (r : Result) :
    Plan → Prop
  | .sized n =>
      r.bytes.toInt = t.written ∧ 0 ≤ t.written ∧ t.written ≤ max 0 n.toInt ∧
        (r.complete = true ↔ t.written = n.toInt) ∧
        (0 ≤ n → r.complete = false → WriteFailed evs i)
  | .timed d =>
      (r.complete = true → r.xfer.start + d ≤ clock) ∧ (r.complete = false → WriteFailed evs i)
  | .upload => r.complete = false → ReadFailed evs i

/-- A request keeps to the plan `ServeHTTP` made for it. -/
def Thread.OnPlan (cfg : HTTPConfig) (evs : List HTTPEvent) (clock : Time) (i : Nat) (t : Thread) :
    Prop :=
  match t.stage with
  | .called => t.writes = []
  | .admitted plan =>
      cfg.serveHTTP t.req = .ok plan ∧ t.headers = plan.headers ∧ t.writes = []
  | .looping goal sent xfer =>
      ∃ plan, cfg.serveHTTP t.req = .ok plan ∧ t.headers = plan.headers ∧
        plan.goal? xfer.start = some goal ∧ goal.Within sent t
  | .writing goal sent n xfer =>
      n = goal.block sent ∧ (∀ size, goal = .size size → sent < size) ∧
        ∃ plan, cfg.serveHTTP t.req = .ok plan ∧ t.headers = plan.headers ∧
          plan.goal? xfer.start = some goal ∧ goal.Within sent t
  | .copying _ _ _ => cfg.serveHTTP t.req = .ok .upload ∧ t.headers = []
  | .counting r | .adding r | .closing r | .releasing (some r) | .ended (.served (some r)) =>
      ∃ plan, cfg.serveHTTP t.req = .ok plan ∧ t.headers = plan.headers ∧
        Delivered evs clock i t r plan
  | .releasing none | .ended (.served none) | .ended (.answered _) | .ended (.rejected _) => True

section Mono

variable {cfg : HTTPConfig} {evs evs' : List HTTPEvent} {clock now : Time} {i : Nat} {t : Thread}

theorem WriteFailed.mono (h : WriteFailed evs i) (hsub : evs ⊆ evs') : WriteFailed evs' i := by
  obtain ⟨now, w, hmem⟩ := h
  exact ⟨now, w, hsub hmem⟩

theorem ReadFailed.mono (h : ReadFailed evs i) (hsub : evs ⊆ evs') : ReadFailed evs' i := by
  obtain ⟨now, n, hmem⟩ := h
  exact ⟨now, n, hsub hmem⟩

theorem Delivered.mono {r : Result} {plan : Plan} (h : Delivered evs clock i t r plan)
    (hsub : evs ⊆ evs') (hle : clock ≤ now) : Delivered evs' now i t r plan := by
  cases plan with
  | sized n =>
      obtain ⟨hbytes, hnonneg, hle, hcomplete, hfailed⟩ := h
      exact ⟨hbytes, hnonneg, hle, hcomplete, fun hn hnot => (hfailed hn hnot).mono hsub⟩
  | timed d => exact ⟨fun hc => (h.1 hc).trans hle, fun hnot => (h.2 hnot).mono hsub⟩
  | upload => exact fun hnot => (h hnot).mono hsub

/-- Time passes, and others move. -/
theorem Thread.OnPlan.mono (h : t.OnPlan cfg evs clock i) (hsub : evs ⊆ evs') (hle : clock ≤ now) :
    t.OnPlan cfg evs' now i := by
  have hresult : ∀ r, (∃ plan, cfg.serveHTTP t.req = .ok plan ∧ t.headers = plan.headers ∧
        Delivered evs clock i t r plan) →
      ∃ plan, cfg.serveHTTP t.req = .ok plan ∧ t.headers = plan.headers ∧
        Delivered evs' now i t r plan := by
    rintro r ⟨plan, hserve, hheaders, hdelivered⟩
    exact ⟨plan, hserve, hheaders, hdelivered.mono hsub hle⟩
  unfold Thread.OnPlan at h ⊢
  cases hstage : t.stage with
  | called | admitted | looping | writing | copying => simpa only [hstage] using h
  | counting r | adding r | closing r =>
      rw [hstage] at h
      exact hresult r h
  | releasing result =>
      rw [hstage] at h
      cases result with
      | none => trivial
      | some r => exact hresult r h
  | ended outcome =>
      rw [hstage] at h
      cases outcome with
      | answered | rejected => trivial
      | served result =>
          cases result with
          | none => trivial
          | some r => exact hresult r h

end Mono

/-! ## One step of a request -/

section Step

variable {cfg : HTTPConfig} {h h' : HTTPHandler} {evs : List HTTPEvent} {clock now : Time} {i : Nat}
  {t t' : Thread}

/-- Sums of what a block has room for do not wrap. -/
theorem toInt_add_of_le {sent n size : Int64} (hsent : 0 ≤ sent.toInt) (hn : 0 ≤ n.toInt)
    (hle : sent.toInt + n.toInt ≤ size.toInt) : (sent + n).toInt = sent.toInt + n.toInt := by
  have hmax := size.toInt_lt
  rw [Int64.toInt_add]
  exact Int.bmod_eq_of_le (by omega) (by omega)

theorem toInt_sub_of_le {sent size : Int64} (hsent : 0 ≤ sent.toInt)
    (hle : sent.toInt ≤ size.toInt) : (size - sent).toInt = size.toInt - sent.toInt := by
  have hmax := size.toInt_lt
  rw [Int64.toInt_sub]
  exact Int.bmod_eq_of_le (by omega) (by omega)

/-- The block fits into what is left to send. -/
theorem block_size {sent size : Int64} (hsent : 0 ≤ sent.toInt) (hlt : sent < size) :
    0 ≤ ((Goal.size size).block sent).toInt ∧
      sent.toInt + ((Goal.size size).block sent).toInt ≤ size.toInt := by
  have hlt' : sent.toInt < size.toInt := Int64.lt_iff_toInt_lt.mp hlt
  have hsub := toInt_sub_of_le hsent hlt'.le
  have hblock : payloadBlockLen.toInt = 1048576 := rfl
  simp only [Goal.block]
  split
  · omega
  · next h =>
      rw [Int64.lt_iff_toInt_lt] at h
      omega

theorem written_snoc (n : Int64) :
    Thread.written { t with writes := t.writes ++ [n] } = t.written + n.toInt := by
  rw [Thread.written, total_append, total_singleton]
  rfl

/-- What a lawful `Write` adds. -/
theorem Goal.Within.wrote {goal : Goal} {sent n : Int64} (hwithin : goal.Within sent t)
    (hunmet : ∀ size, goal = .size size → sent < size) (hnonneg : 0 ≤ n)
    (hle : n ≤ goal.block sent) : goal.Within (sent + n) { t with writes := t.writes ++ [n] } := by
  cases goal with
  | deadline dl => trivial
  | size size =>
      obtain ⟨hsum, hsent, -⟩ := hwithin
      have hlt := hunmet size rfl
      obtain ⟨-, hroom⟩ := block_size hsent hlt
      have hn : 0 ≤ n.toInt := Int64.le_iff_toInt_le.mp hnonneg
      have hn' := Int64.le_iff_toInt_le.mp hle
      have hadd := toInt_add_of_le hsent hn (hroom.trans' (Int.add_le_add_left hn' _))
      refine ⟨?_, ?_, ?_⟩
      · rw [hadd, hsum, written_snoc]
      · omega
      · exact le_max_of_le_right (by omega)

/-- A sized download is logged as complete if it has written its size. -/
theorem complete_size {sent size : Int64} (hsum : sent.toInt = t.written) (failed : Bool) :
    (Goal.size size).complete sent failed = true ↔ t.written = size.toInt := by
  rw [← hsum, Int64.toInt_inj]
  exact beq_iff_eq

theorem serve_onPlan (hstage : t.stage = .called) (hplan : t.OnPlan cfg evs clock i)
    (hserve : t.serve cfg h = (h', t')) : t'.OnPlan cfg evs clock i := by
  unfold Thread.OnPlan at hplan
  rw [hstage] at hplan
  unfold Thread.serve at hserve
  split at hserve
  · cases hserve
    trivial
  · next hok =>
      split at hserve <;> cases hserve
      · exact ⟨hok, rfl, hplan⟩
      · trivial

theorem start_onPlan {plan : Plan} (hstage : t.stage = .admitted plan)
    (hplan : t.OnPlan cfg evs clock i) (hstart : t.start h now plan = (h', t')) :
    t'.OnPlan cfg evs clock i := by
  unfold Thread.OnPlan at hplan
  rw [hstage] at hplan
  obtain ⟨hserve, hheaders, hwrites⟩ := hplan
  have hzero : t.written = 0 := by
    rw [Thread.written, hwrites]
    rfl
  unfold Thread.start at hstart
  split at hstart
  · split at hstart <;> cases hstart
    · trivial
    · exact ⟨_, hserve, hheaders, rfl, hzero.symm, le_refl _, le_max_left _ _⟩
  · split at hstart <;> cases hstart
    · trivial
    · exact ⟨_, hserve, hheaders, rfl, trivial⟩
  · cases hstart
    exact ⟨hserve, hheaders⟩

theorem check_onPlan {goal : Goal} {sent : Int64} {xfer : Transfer}
    (hstage : t.stage = .looping goal sent xfer) (hplan : t.OnPlan cfg evs clock i) :
    (t.check now goal sent xfer).OnPlan cfg evs now i := by
  unfold Thread.OnPlan at hplan
  rw [hstage] at hplan
  obtain ⟨plan, hserve, hheaders, hgoal, hwithin⟩ := hplan
  unfold Thread.check
  split
  · next hgo =>
      refine ⟨rfl, ?_, plan, hserve, hheaders, hgoal, hwithin⟩
      rintro size rfl
      exact of_decide_eq_true (Bool.and_eq_true_iff.mp hgo).1
  · next hstop =>
      refine ⟨plan, hserve, hheaders, ?_⟩
      cases plan with
      | sized size =>
          cases hgoal
          obtain ⟨hsum, hnonneg, hle⟩ := hwithin
          refine ⟨hsum, hsum ▸ hnonneg, hsum ▸ hle, complete_size hsum false, ?_⟩
          -- with less than its size written the loop would have gone on
          intro hsize hnot
          have hne : sent ≠ size := fun heq => by simp [Goal.complete, heq] at hnot
          have hlt : sent < size := by
            have hpos : 0 ≤ size.toInt := Int64.le_iff_toInt_le.mp hsize
            rw [max_eq_right hpos] at hle
            exact Int64.lt_iff_toInt_lt.mpr
              (lt_of_le_of_ne hle fun heq => hne (Int64.toInt_inj.mp heq))
          have hblock : 0 ≤ (Goal.size size).block sent :=
            Int64.le_iff_toInt_le.mpr (block_size hnonneg hlt).1
          exact absurd (by simp [Goal.unmet, hlt, hblock]) hstop
      | timed d =>
          cases hgoal
          refine ⟨fun _ => ?_, nofun⟩
          by_contra hearly
          have hblock : (0 : Int64) ≤ payloadBlockLen := by decide
          exact hstop (by simp [Goal.unmet, Goal.block, not_le.mp hearly, hblock])
      | upload => cases hgoal

theorem wrote_onPlan {goal : Goal} {sent k n : Int64} {xfer : Transfer} {failed : Bool}
    (hstage : t.stage = .writing goal sent k xfer) (hplan : t.OnPlan cfg evs clock i)
    (hlawful : t.lawful (.write n failed) = true)
    (hwrote : t.wrote h goal sent xfer n failed = (h', t')) :
    t'.OnPlan cfg (evs ++ [.act i now (.write n failed)]) clock i := by
  unfold Thread.OnPlan at hplan
  unfold Thread.lawful at hlawful
  rw [hstage] at hplan hlawful
  obtain ⟨rfl, hunmet, plan, hserve, hheaders, hgoal, hwithin⟩ := hplan
  obtain ⟨hroom, -⟩ := Bool.and_eq_true_iff.mp hlawful
  obtain ⟨hnonneg, hle⟩ := Bool.and_eq_true_iff.mp hroom
  have hwithin' := hwithin.wrote hunmet (of_decide_eq_true hnonneg) (of_decide_eq_true hle)
  cases hwrote
  cases failed with
  | false => exact ⟨plan, hserve, hheaders, hgoal, hwithin'⟩
  | true =>
      have hfailed : WriteFailed (evs ++ [.act i now (.write n true)]) i :=
        ⟨now, n, List.mem_append_right _ (List.mem_singleton.mpr rfl)⟩
      refine ⟨plan, hserve, hheaders, ?_⟩
      cases plan with
      | sized size =>
          cases hgoal
          obtain ⟨hsum, hnonneg, hle⟩ := hwithin'
          exact ⟨hsum, hsum ▸ hnonneg, hsum ▸ hle, complete_size hsum true, fun _ _ => hfailed⟩
      | timed d =>
          cases hgoal
          exact ⟨nofun, fun _ => hfailed⟩
      | upload => cases hgoal

theorem read_onPlan {written counted n : Int64} {xfer : Transfer} {res : ReadResult}
    (hstage : t.stage = .copying written counted xfer) (hplan : t.OnPlan cfg evs clock i)
    (hread : t.read h written counted xfer n res = (h', t')) :
    t'.OnPlan cfg (evs ++ [.act i now (.read n res)]) clock i := by
  unfold Thread.OnPlan at hplan
  rw [hstage] at hplan
  cases hread
  cases res with
  | more => exact hplan
  | eof => exact ⟨.upload, hplan.1, hplan.2, nofun⟩
  | failed =>
      refine ⟨.upload, hplan.1, hplan.2, fun _ => ⟨now, n, ?_⟩⟩
      exact List.mem_append_right _ (List.mem_singleton.mpr rfl)

/-- One step of a request. -/
theorem Thread.OnPlan.act {a : Act} (hplan : t.OnPlan cfg evs clock i) (hle : clock ≤ now)
    (hlawful : t.lawful a = true) (hact : t.act cfg h now a = some (h', t')) :
    t'.OnPlan cfg (evs ++ [.act i now a]) now i := by
  have hsub : evs ⊆ evs ++ [.act i now a] := List.subset_append_left _ _
  have hlater := hplan.mono hsub hle
  unfold Thread.OnPlan at hlater
  unfold Thread.act at hact
  split at hact
  · next hstage => exact (serve_onPlan hstage hplan (Option.some.inj hact)).mono hsub hle
  · next hstage => exact (start_onPlan hstage hplan (Option.some.inj hact)).mono hsub hle
  · next hstage =>
      cases hact
      exact (check_onPlan hstage hplan).mono hsub (le_refl _)
  · next hstage =>
      exact (wrote_onPlan hstage hplan hlawful (Option.some.inj hact)).mono (List.Subset.refl _) hle
  · next hstage =>
      exact (read_onPlan hstage hplan (Option.some.inj hact)).mono (List.Subset.refl _) hle
  · next hstage =>
      rw [hstage] at hlater
      cases hact
      exact hlater
  · next hstage =>
      rw [hstage] at hlater
      cases hact
      exact hlater
  · next hstage =>
      rw [hstage] at hlater
      cases hact
      exact hlater
  · next result hstage =>
      rw [hstage] at hlater
      obtain ⟨h'', -, heq⟩ := Option.map_eq_some_iff.mp hact
      cases heq
      cases result with
      | none => trivial
      | some r => exact hlater
  · cases hact

end Step

/-! ## Every interleaving -/

/-- The contract holds at every step of a run. -/
def LawfulRun (cfg : HTTPConfig) (t₀ : Time) (evs : List HTTPEvent) : Prop :=
  Transition.Meets (HTTPServer.step cfg) (fun s e => e.lawful s = true) (HTTPServer.init cfg t₀) evs

instance (cfg : HTTPConfig) (t₀ : Time) (evs : List HTTPEvent) : Decidable (LawfulRun cfg t₀ evs) :=
  inferInstanceAs (Decidable (Transition.Meets _ _ _ _))

def OnPlans (cfg : HTTPConfig) (evs : List HTTPEvent) (s : HTTPServer) : Prop :=
  ∀ (i : Nat) (t : Thread), s.threads[i]? = some t → t.OnPlan cfg evs s.clock i

section Server

variable {cfg : HTTPConfig} {t₀ : Time} {evs : List HTTPEvent} {s s' : HTTPServer}

theorem OnPlans.step {e : HTTPEvent} (h : OnPlans cfg evs s) (hlawful : e.lawful s = true)
    (hstep : s.step cfg e = some s') : OnPlans cfg (evs ++ [e]) s' := by
  have hsub : evs ⊆ evs ++ [e] := List.subset_append_left _ _
  cases e with
  | arrive r =>
      cases hstep
      intro i t ht
      rw [List.getElem?_append] at ht
      split at ht
      · exact (h i t ht).mono hsub (le_refl _)
      · obtain rfl := List.mem_singleton.mp (List.mem_of_getElem? ht)
        rfl
  | act j now a =>
      obtain ⟨hnow, hbody⟩ := Option.ite_none_right_eq_some.mp hstep
      obtain ⟨t, ht, hmap⟩ := Option.bind_eq_some_iff.mp hbody
      obtain ⟨⟨h', t'⟩, hact, rfl⟩ := Option.map_eq_some_iff.mp hmap
      intro i u hu
      by_cases hij : j = i
      · subst hij
        have hlt := (List.getElem?_eq_some_iff.mp ht).1
        rw [List.getElem?_set_self hlt] at hu
        cases hu
        rw [HTTPEvent.lawful, ht] at hlawful
        exact (h j t ht).act hnow hlawful hact
      · rw [List.getElem?_set_ne hij] at hu
        exact (h i u hu).mono hsub hnow
  | live now order =>
      obtain ⟨hnow, hsome⟩ := Option.ite_none_right_eq_some.mp hstep
      cases hsome
      intro i t ht
      exact (h i t ht).mono hsub hnow

theorem onPlans_of_run
    (hrun : Transition.run (HTTPServer.step cfg) (HTTPServer.init cfg t₀) evs = some s)
    (hlawful : LawfulRun cfg t₀ evs) : OnPlans cfg evs s := by
  refine Transition.run_induction
    (P := fun evs s => LawfulRun cfg t₀ evs → OnPlans cfg evs s) ?_ ?_ hrun hlawful
  · intro _ i t ht
    cases ht
  · intro evs s e s' hrun ih hstep hlawful
    obtain ⟨hbefore, hlast⟩ := Transition.meets_append.mp hlawful
    exact (ih hbefore).step (hlast s hrun).1 hstep

end Server

/-- The result of a transfer that has moved its data. -/
def Stage.result? : Stage → Option Result
  | .counting r | .adding r | .closing r | .releasing (some r) | .ended (.served (some r)) => some r
  | .called | .admitted _ | .looping _ _ _ | .writing _ _ _ _ | .copying _ _ _ | .releasing none
  | .ended (.served none) | .ended (.answered _) | .ended (.rejected _) => none

section Thread

variable {cfg : HTTPConfig} {evs : List HTTPEvent} {clock : Time} {i : Nat} {t : Thread}

theorem Thread.OnPlan.result {r : Result} (h : t.OnPlan cfg evs clock i)
    (hresult : t.stage.result? = some r) : ∃ plan, cfg.serveHTTP t.req = .ok plan ∧
      t.headers = plan.headers ∧ Delivered evs clock i t r plan := by
  unfold Thread.OnPlan at h
  unfold Stage.result? at hresult
  cases hstage : t.stage with
  | counting | adding | closing =>
      rw [hstage] at h hresult
      cases hresult
      exact h
  | releasing result =>
      rw [hstage] at h hresult
      cases result <;> cases hresult
      exact h
  | ended outcome =>
      rw [hstage] at h hresult
      cases outcome with
      | answered | rejected => cases hresult
      | served result =>
          cases result <;> cases hresult
          exact h
  | called | admitted | looping | writing | copying =>
      rw [hstage] at hresult
      cases hresult

/-- In every stage. -/
theorem Thread.OnPlan.written_le {size : Int64} (h : t.OnPlan cfg evs clock i)
    (hagrees : t.Agrees cfg) (hserve : cfg.serveHTTP t.req = .ok (.sized size)) :
    0 ≤ t.written ∧ t.written ≤ max 0 size.toInt := by
  have hempty : t.writes = [] → 0 ≤ t.written ∧ t.written ≤ max 0 size.toInt := by
    intro hwrites
    rw [Thread.written, hwrites]
    exact ⟨le_refl _, le_max_left _ _⟩
  have hresult : ∀ r, t.stage.result? = some r → 0 ≤ t.written ∧ t.written ≤ max 0 size.toInt := by
    intro r hr
    obtain ⟨plan, hplan, -, hdelivered⟩ := h.result hr
    rw [hserve] at hplan
    cases hplan
    exact ⟨hdelivered.2.1, hdelivered.2.2.1⟩
  have hgoal : ∀ plan start goal sent, cfg.serveHTTP t.req = .ok plan →
      plan.goal? start = some goal → goal.Within sent t →
        0 ≤ t.written ∧ t.written ≤ max 0 size.toInt := by
    intro plan start goal sent hplan hgoal hwithin
    rw [hserve] at hplan
    cases hplan
    cases hgoal
    obtain ⟨hsum, hnonneg, hle⟩ := hwithin
    exact ⟨hsum ▸ hnonneg, hsum ▸ hle⟩
  unfold Thread.OnPlan at h
  unfold Thread.Agrees at hagrees
  cases hstage : t.stage with
  | called =>
      rw [hstage] at h
      exact hempty h
  | admitted =>
      rw [hstage] at h
      exact hempty h.2.2
  | looping =>
      rw [hstage] at h
      obtain ⟨plan, hplan, -, hfor, hwithin⟩ := h
      exact hgoal plan _ _ _ hplan hfor hwithin
  | writing =>
      rw [hstage] at h
      obtain ⟨-, -, plan, hplan, -, hfor, hwithin⟩ := h
      exact hgoal plan _ _ _ hplan hfor hwithin
  | copying =>
      rw [hstage, hserve] at h
      cases h.1
  | counting r | adding r | closing r => exact hresult r (by rw [hstage]; rfl)
  | releasing result =>
      cases result with
      | some r => exact hresult r (by rw [hstage]; rfl)
      | none =>
          rw [hstage] at hagrees
          exact hempty hagrees.2.1
  | ended outcome =>
      rw [hstage] at hagrees
      cases outcome with
      | answered | rejected => exact hempty hagrees.1
      | served result =>
          cases result with
          | some r => exact hresult r (by rw [hstage]; rfl)
          | none => exact hempty hagrees.2.1

end Thread

/-- **A download delivers what it announces.** In every run in which `Write`
keeps its contract, a request for `size` bytes has never written more than
that; and once a transfer has moved its data, the response headers are those
of the plan made for the request, and: a sized download is complete exactly
if it has written its size, and short of it only if a `Write` has failed; a
timed one is complete only after its time, and ends early only if a `Write`
has failed; an upload is incomplete only if a `Read` has failed. -/
theorem transfers_delivered (cfg : HTTPConfig) (t₀ : Time) {evs : List HTTPEvent} {s : HTTPServer}
    (hrun : Transition.run (HTTPServer.step cfg) (HTTPServer.init cfg t₀) evs = some s)
    (hlawful : LawfulRun cfg t₀ evs) {i : Nat} {t : Thread} (ht : s.threads[i]? = some t) :
    (∀ size, cfg.serveHTTP t.req = .ok (.sized size) →
      0 ≤ t.written ∧ t.written ≤ max 0 size.toInt) ∧
    ∀ r, t.stage.result? = some r → ∃ plan, cfg.serveHTTP t.req = .ok plan ∧
      t.headers = plan.headers ∧ Delivered evs s.clock i t r plan := by
  have hplan := onPlans_of_run hrun hlawful i t ht
  have hagrees := ((conserved_of_reachable ⟨evs, hrun⟩).wf t (List.mem_of_getElem? ht)).agrees
  exact ⟨fun size => hplan.written_le hagrees, fun r => hplan.result⟩

/-- The download of `oneSlotRun` is complete, so it has written its 5 bytes. -/
theorem transfers_delivered_oneSlot : ∃ s t r,
    Transition.run (HTTPServer.step { maxConcurrent := 1 })
        (HTTPServer.init { maxConcurrent := 1 } 0) oneSlotRun = some s ∧
      s.threads[0]? = some t ∧ t.stage.result? = some r ∧ r.complete = true ∧ t.written = 5 := by
  have hends : (Transition.run (HTTPServer.step { maxConcurrent := 1 })
      (HTTPServer.init { maxConcurrent := 1 } 0) oneSlotRun).bind (fun s => s.threads[0]?.bind
        fun t => t.stage.result?.map fun r =>
          (r.complete, (HTTPConfig.serveHTTP { maxConcurrent := 1 } t.req).toOption))
      = some (true, some (.sized 5)) := by
    decide +kernel
  obtain ⟨s, hrun, hs⟩ := Option.bind_eq_some_iff.mp hends
  obtain ⟨t, ht, hres⟩ := Option.bind_eq_some_iff.mp hs
  obtain ⟨r, hr, hpair⟩ := Option.map_eq_some_iff.mp hres
  obtain ⟨hcomplete, hserve⟩ := Prod.mk.inj hpair
  obtain ⟨plan, hplan, -, hdelivered⟩ :=
    (transfers_delivered { maxConcurrent := 1 } 0 hrun (by decide +kernel) ht).2 r hr
  rw [hplan] at hserve
  cases hserve
  exact ⟨s, t, r, hrun, ht, hr, hcomplete, hdelivered.2.2.2.1.mp hcomplete⟩

end Diagd.Tr143

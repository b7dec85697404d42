import Diagd.Tr143.Live

/-!
# Polling the live registry

What a poller of `/live` can rely on. A snapshot cannot tell the registry
from the record of every transfer, so it does not depend on who else polls,
and a poller that comes back within the grace window sees every transfer
end (`snapshot_exact`). What the registry HOLDS does depend on polls: entries
leave through snapshots only (`held_recent_iff`).
-/

namespace Diagd.Tr143

open GoStd Retention

/-! ## What is held -/

/-- Only transfers in flight and those that ended within the grace window. -/
def HoldsRecent (r : LiveRegistry) (t : Time) : Prop :=
  ∀ x ∈ r.live, x.2.done = true → t - x.2.ended ≤ liveGrace

/-- Every completion that is out of its grace window at `t` was followed by
a snapshot that came after that window as well. -/
def Polled (ops : List LiveOp) (t : Time) : Prop :=
  ∀ pre ended id post, ops = pre ++ .complete ended id :: post → liveGrace < t - ended →
    ∃ o ∈ post, o.isSnapshot = true ∧ liveGrace < o.time - ended

/-- A completion at `ended` that no later snapshot has found out of its window. -/
def Lingers (ops : List LiveOp) (ended : Time) : Prop :=
  ∃ pre id post, ops = pre ++ .complete ended id :: post ∧
    ∀ o ∈ post, o.isSnapshot = true → o.time - ended ≤ liveGrace

/-- The registry holds a transfer that ended then. -/
def HoldsEnded (r : LiveRegistry) (ended : Time) : Prop :=
  ∃ x ∈ r.live, x.2.done = true ∧ x.2.ended = ended

theorem polled_iff {ops : List LiveOp} {t : Time} :
    Polled ops t ↔ ∀ ended, Lingers ops ended → t - ended ≤ liveGrace := by
  constructor
  · rintro hpolled ended ⟨pre, id, post, hops, hnone⟩
    by_contra hlate
    obtain ⟨o, ho, hsnap, hout⟩ := hpolled pre ended id post hops (not_le.mp hlate)
    exact absurd (hnone o ho hsnap) (not_le.mpr hout)
  · intro hrecent pre ended id post hops hlate
    by_contra hnone
    refine absurd (hrecent ended ⟨pre, id, post, hops, ?_⟩) (not_le.mpr hlate)
    intro o ho hsnap
    by_contra hout
    exact hnone ⟨o, ho, hsnap, not_le.mp hout⟩

theorem lingers_snoc {ops : List LiveOp} {o : LiveOp} {ended : Time} :
    Lingers (ops ++ [o]) ended ↔
      (Lingers ops ended ∧ (o.isSnapshot = true → o.time - ended ≤ liveGrace)) ∨
        ∃ id, o = .complete ended id := by
  constructor
  · rintro ⟨pre, id, post, hops, hnone⟩
    rcases Transition.snoc_split hops with ⟨-, -, hlast⟩ | ⟨post', rfl, hinit⟩
    · exact .inr ⟨id, hlast⟩
    · exact .inl ⟨⟨pre, id, post', hinit, fun o' ho' => hnone o' (by simp [ho'])⟩,
        hnone o (by simp)⟩
  · rintro (⟨⟨pre, id, post, rfl, hnone⟩, hlast⟩ | ⟨id, rfl⟩)
    · refine ⟨pre, id, post ++ [o], by simp, ?_⟩
      intro o' ho'
      rcases List.mem_append.mp ho' with hold | hnew
      · exact hnone o' hold
      · exact List.mem_singleton.mp hnew ▸ hlast
    · exact ⟨ops, id, [], rfl, by simp⟩

theorem holdsEnded_begin {all : List (UInt64 × LiveEntry)} {s : LiveState} {ended now : Time}
    {test ref peer : String} (htracks : Tracks all s) (hroom : s.reg.seq.toNat + 1 < 2 ^ 64) :
    HoldsEnded (s.reg.begin now test ref peer).1 ended ↔ HoldsEnded s.reg ended := by
  simp [HoldsEnded, htracks.begin_live hroom, or_and_right, exists_or]

/-- An update that keeps the completion of every entry. -/
theorem holdsEnded_map {r : LiveRegistry} {ended : Time}
    {g : UInt64 × LiveEntry → UInt64 × LiveEntry}
    (hg : ∀ x, (g x).2.done = x.2.done ∧ (g x).2.ended = x.2.ended) :
    HoldsEnded { r with live := r.live.map g } ended ↔ HoldsEnded r ended := by
  simp only [HoldsEnded, List.mem_map, exists_exists_and_eq_and, hg]

theorem holdsEnded_complete {all : List (UInt64 × LiveEntry)} {s : LiveState} {ended now : Time}
    {id : UInt64} (htracks : Tracks all s) (hfl : s.reg.inFlight id = true) :
    HoldsEnded (s.reg.complete now id) ended ↔ HoldsEnded s.reg ended ∨ now = ended := by
  constructor
  · rintro ⟨y, hy, hdone, hended⟩
    obtain ⟨x, hx, rfl⟩ := List.mem_map.mp hy
    by_cases hid : x.1 = id
    · exact .inr (by simpa [modifyEntry, hid] using hended)
    · rw [modifyEntry, if_neg hid] at hdone hended
      exact .inl ⟨x, hx, hdone, hended⟩
  · rintro (⟨x, hx, hdone, hended⟩ | rfl)
    · have hid : x.1 ≠ id := by
        intro hid
        have hopen := htracks.unfinished hfl (htracks.retains.sublist.subset hx) hid
        rw [hdone] at hopen
        cases hopen
      exact ⟨x, List.mem_map.mpr ⟨x, hx, by rw [modifyEntry, if_neg hid]⟩, hdone, hended⟩
    · obtain ⟨y, hy, hbits⟩ := List.any_eq_true.mp hfl
      have hid : y.1 = id := beq_iff_eq.mp (Bool.and_eq_true_iff.mp hbits).1
      exact ⟨_, List.mem_map_of_mem hy, by simp [modifyEntry, hid], by simp [modifyEntry, hid]⟩

theorem holdsEnded_snapshot {r : LiveRegistry} {ended now : Time} (order : IterOrder)
    (hkeys : (r.live.map Prod.fst).Nodup) :
    HoldsEnded (r.snapshot now order).1 ended ↔
      HoldsEnded r ended ∧ now - ended ≤ liveGrace := by
  rw [snapshot_reg hkeys]
  constructor
  · rintro ⟨x, hx, hdone, rfl⟩
    obtain ⟨hin, hfresh⟩ := List.mem_filter.mp hx
    refine ⟨⟨x, hin, hdone, rfl⟩, ?_⟩
    simpa [LiveEntry.stale, hdone] using hfresh
  · rintro ⟨⟨x, hx, hdone, rfl⟩, hrecent⟩
    refine ⟨x, List.mem_filter.mpr ⟨hx, ?_⟩, hdone, rfl⟩
    simpa [LiveEntry.stale, hdone] using hrecent

/-- What an operation does to the finished transfers held. -/
theorem holdsEnded_step {all : List (UInt64 × LiveEntry)} {s s' : LiveState} {o : LiveOp}
    {ended : Time} (htracks : Tracks all s) (hstep : s.step o = some s') :
    HoldsEnded s'.reg ended ↔
      (HoldsEnded s.reg ended ∧ (o.isSnapshot = true → o.time - ended ≤ liveGrace)) ∨
        ∃ id, o = .complete ended id := by
  obtain ⟨-, -, hmove⟩ := liveMoves_of_step hstep
  generalize s'.reg = reg' at hmove
  cases hmove with
  | begin now test ref peer hroom => simp [holdsEnded_begin htracks hroom, LiveOp.isSnapshot]
  | @complete now id hfl => simp [holdsEnded_complete htracks hfl, LiveOp.isSnapshot]
  | @store now id n hfl =>
      have hkeep : HoldsEnded (s.reg.store id n) ended ↔ HoldsEnded s.reg ended := by
        apply holdsEnded_map
        intro x
        unfold modifyEntry
        split <;> exact ⟨rfl, rfl⟩
      simp [hkeep, LiveOp.isSnapshot]
  | snapshot now order =>
      simp [holdsEnded_snapshot order htracks.nodup_keys, LiveOp.isSnapshot, LiveOp.time]

theorem holdsEnded_iff {t₀ : Time} {ops : List LiveOp} {s : LiveState}
    (hrun : Transition.run LiveState.step { clock := t₀ } ops = some s) (ended : Time) :
    HoldsEnded s.reg ended ↔ Lingers ops ended := by
  refine Transition.run_induction
    (P := fun ops s => HoldsEnded s.reg ended ↔ Lingers ops ended) ?_ ?_ hrun
  · simp [HoldsEnded, Lingers]
  · intro ops s o s' hrun ih hstep
    rw [holdsEnded_step (tracks_of_run hrun) hstep, ih, lingers_snoc]

theorem holdsRecent_iff {r : LiveRegistry} {t : Time} :
    HoldsRecent r t ↔ ∀ ended, HoldsEnded r ended → t - ended ≤ liveGrace := by
  constructor
  · rintro h ended ⟨x, hx, hdone, rfl⟩
    exact h x hx hdone
  · intro h x hx hdone
    exact h x.2.ended ⟨x, hx, hdone, rfl⟩

/-- What is neither finished nor out of its window, counted in two parts. -/
theorem countP_visible (xs : List (UInt64 × LiveEntry)) (t : Time) :
    xs.countP (fun x => !x.2.stale t) = xs.countP (fun x => !x.2.done)
      + xs.countP (fun x => x.2.done && decide (t - x.2.ended ≤ liveGrace)) := by
  induction xs with
  | nil => rfl
  | cons x xs ih =>
      have hone : (if (!x.2.stale t) = true then 1 else 0) = (if (!x.2.done) = true then 1 else 0)
          + if (x.2.done && decide (t - x.2.ended ≤ liveGrace)) = true then 1 else 0 := by
        cases hdone : x.2.done <;> simp [LiveEntry.stale, hdone]
      rw [List.countP_cons, List.countP_cons, List.countP_cons, ih, hone]
      omega

theorem Tracks.length_le {all : List (UInt64 × LiveEntry)} {s : LiveState} (h : Tracks all s)
    (hrecent : HoldsRecent s.reg s.clock) :
    s.reg.live.length ≤ all.countP (fun x => !x.2.stale s.clock) := by
  have hall : s.reg.live.countP (fun x => !x.2.stale s.clock) = s.reg.live.length := by
    rw [List.countP_eq_length]
    intro x hx
    cases hdone : x.2.done with
    | false => simp [LiveEntry.stale, hdone]
    | true => simpa [LiveEntry.stale, hdone] using hrecent x hx hdone
  rw [← hall]
  exact h.retains.sublist.countP_le

/-- **What is held after the grace window.** After the last operation of a
run the registry is down to what is in flight or ended within the window
exactly if the run was polled: entries leave through snapshots only. -/
theorem held_recent_iff {t₀ : Time} {ops : List LiveOp} {s : LiveState}
    (hrun : Transition.run LiveState.step { clock := t₀ } ops = some s) :
    (HoldsRecent s.reg s.clock ∧
      s.reg.live.length ≤ (history ops).countP (fun x => !x.2.done)
        + (history ops).countP fun x => x.2.done && decide (s.clock - x.2.ended ≤ liveGrace)) ↔
      Polled ops s.clock := by
  have hiff : HoldsRecent s.reg s.clock ↔ Polled ops s.clock := by
    rw [holdsRecent_iff, polled_iff]
    exact forall_congr' fun ended => imp_congr_left (holdsEnded_iff hrun ended)
  constructor
  · intro h
    exact hiff.mp h.1
  · intro hpolled
    have hrecent := hiff.mpr hpolled
    refine ⟨hrecent, ?_⟩
    rw [← countP_visible]
    exact (tracks_of_run hrun).length_le hrecent

/-- The map as it is listed. -/
def IterOrder.inOrder : IterOrder where
  visit entries := entries
  perm _ := .rfl

/-- A transfer of one second. -/
def oneTransfer : List LiveOp := [.begin 0 "http_upload" "" "", .complete second 1]

/-- Somebody polls 20 s later. -/
theorem held_recent_iff_onePoll :
    let ops := oneTransfer ++ [.snapshot (20 * second) .inOrder]
    ∃ s, Transition.run LiveState.step { clock := 0 } ops = some s ∧ s.clock = 20 * second ∧
      ((HoldsRecent s.reg s.clock ∧
        s.reg.live.length ≤ (history ops).countP (fun x => !x.2.done)
          + (history ops).countP fun x => x.2.done && decide (s.clock - x.2.ended ≤ liveGrace)) ↔
        Polled ops s.clock) := by
  intro ops
  have hrun : Transition.run LiveState.step { clock := 0 } ops = some _ := rfl
  exact ⟨_, hrun, rfl, held_recent_iff hrun⟩

/-- Nobody polls: 100 s later the transfer is still held. -/
theorem held_unpolled :
    ∃ s, Transition.run LiveState.step { clock := 0 }
        (oneTransfer ++ [.begin (100 * second) "http_upload" "" ""]) = some s ∧
      ¬HoldsRecent s.reg s.clock := by
  refine ⟨_, rfl, ?_⟩
  intro hrecent
  have hold := hrecent _ List.mem_cons_self rfl
  revert hold
  decide

/-! ## What a snapshot reports -/

/-- What a sample at `t` is to say of a transfer. -/
structure LiveTransfer.Reports (y : LiveTransfer) (e : LiveEntry) (t : Time) : Prop where
  test : y.test = e.test
  ref : y.ref = e.ref
  peer : y.peer = e.peer
  bytes : y.bytes = e.bytes
  done : y.done = e.done
  running : e.done = false → y.elapsedMS = Duration.milliseconds (t - e.start)
  frozen : e.done = true → y.elapsedMS = Duration.milliseconds (e.ended - e.start)

theorem LiveEntry.sample_reports (e : LiveEntry) (t : Time) : (e.sample t).Reports e t where
  test := rfl
  ref := rfl
  peer := rfl
  bytes := rfl
  done := rfl
  running h := by simp [LiveEntry.sample, LiveEntry.elapsed, h]
  frozen h := by simp [LiveEntry.sample, LiveEntry.elapsed, h]

/-- The samples are those of these transfers, one each, in some order. -/
def Reported (entries : List (UInt64 × LiveEntry)) (t : Time) (out : List LiveTransfer) : Prop :=
  ∃ ys, List.Forall₂ (fun x y => LiveTransfer.Reports y x.2 t) entries ys ∧ out.Perm ys

theorem reported_samples (entries : List (UInt64 × LiveEntry)) (t : Time) {out : List LiveTransfer}
    (hperm : out.Perm (entries.map fun x => x.2.sample t)) : Reported entries t out := by
  refine ⟨_, List.forall₂_map_right_iff.mpr (List.forall₂_same.mpr fun x _ => ?_), hperm⟩
  exact x.2.sample_reports t

/-- **A snapshot reports what a query of the whole record would.** -/
theorem Tracks.snapshot_perm {all : List (UInt64 × LiveEntry)} {s : LiveState} (h : Tracks all s)
    {t : Time} (htime : s.clock ≤ t) (order : IterOrder) :
    (s.reg.snapshot t order).2.Perm
      ((all.filter fun x => !x.2.stale t).map fun x => x.2.sample t) := by
  have hsame := (h.retains_later htime).filter_eq h.nodup_ids.of_map
  rw [← hsame]
  exact snapshot_out order

theorem Tracks.snapshot_reported {all : List (UInt64 × LiveEntry)} {s : LiveState}
    (h : Tracks all s) {t : Time} (htime : s.clock ≤ t) (order : IterOrder) :
    Reported (all.filter fun x => !x.2.done || decide (t - x.2.ended ≤ liveGrace)) t
      (s.reg.snapshot t order).2 := by
  simp only [← LiveEntry.not_stale]
  exact reported_samples _ t (h.snapshot_perm htime order)

/-- What a transfer was begun with. -/
def LiveOp.begun : LiveOp → Option (Time × String × String × String)
  | .begin now test ref peer => some (now, test, ref, peer)
  | .complete _ _ | .store _ _ _ | .snapshot _ _ => none

/-- The record has one entry for every `begin`, in order. -/
theorem history_begun (ops : List LiveOp) :
    (history ops).map (fun x => (x.2.start, x.2.test, x.2.ref, x.2.peer))
      = ops.filterMap LiveOp.begun := by
  induction ops using List.reverseRecOn with
  | nil => rfl
  | append_singleton ops o ih =>
      rw [history_snoc, List.filterMap_append, ← ih]
      cases o with
      | begin now test ref peer => simp [record, LiveOp.begun]
      | complete now id =>
          rw [record, map_modifyEntry fun _ => rfl]
          simp [LiveOp.begun]
      | store now id n =>
          rw [record, map_modifyEntry fun _ => rfl]
          simp [LiveOp.begun]
      | snapshot now order => simp [record, LiveOp.begun]

/-! ## Pollers -/

/-- One poll of a poller, with what the others did since the last one. -/
structure Poll where
  before : List LiveOp
  time : Time
  order : IterOrder

def Poll.ops (p : Poll) : List LiveOp := p.before ++ [.snapshot p.time p.order]

/-- One of the polls returns a finished sample of the transfer. -/
def SeesDone (ops : List LiveOp) (s : LiveState) (polls : List Poll) (id : UInt64) : Prop :=
  ∃ earlier p later, polls = earlier ++ p :: later ∧
    ∃ s', Transition.run LiveState.step s (earlier.flatMap Poll.ops ++ p.before) = some s' ∧
      ∃ x ∈ history (ops ++ (earlier.flatMap Poll.ops ++ p.before)), x.1 = id ∧
        ∃ y ∈ (s'.reg.snapshot p.time p.order).2, y.Reports x.2 p.time ∧ y.done = true

theorem clock_le_of_run {s s' : LiveState} {ops : List LiveOp}
    (hrun : Transition.run LiveState.step s ops = some s') :
    s.clock ≤ s'.clock ∧ ∀ o ∈ ops, s.clock ≤ o.time := by
  induction ops generalizing s with
  | nil => exact ⟨le_of_eq (congrArg _ (Option.some.inj hrun)), by simp⟩
  | cons o ops ih =>
      obtain ⟨m, hstep, hrest⟩ := Transition.run_cons.mp hrun
      obtain ⟨htime, hclock, -⟩ := liveMoves_of_step hstep
      obtain ⟨hle, hall⟩ := ih hrest
      rw [hclock] at hle hall
      refine ⟨htime.trans hle, ?_⟩
      intro o' ho'
      rcases List.mem_cons.mp ho' with rfl | hin
      · exact htime
      · exact htime.trans (hall o' hin)

/-- A transfer stays in the record. -/
theorem mem_ids_append {ops : List LiveOp} (more : List LiveOp) {id : UInt64}
    (h : id ∈ (history ops).map Prod.fst) : id ∈ (history (ops ++ more)).map Prod.fst := by
  induction more using List.reverseRecOn with
  | nil => simpa using h
  | append_singleton more o ih =>
      rw [← List.append_assoc, history_snoc]
      cases o with
      | begin now test ref peer =>
          rw [record, List.map_append]
          exact List.mem_append_left _ ih
      | complete now id' => rw [record, map_modifyEntry_fst]; exact ih
      | store now id' n => rw [record, map_modifyEntry_fst]; exact ih
      | snapshot now order => exact ih

section Poller

variable {t₀ : Time} {ops : List LiveOp} {s s' : LiveState}

/-- A transfer that ends between two polls is in the second one: it ended
after the first, so within the period. -/
theorem ended_seen {p : Poll} {x y : UInt64 × LiveEntry}
    (hrun : Transition.run LiveState.step { clock := t₀ } ops = some s)
    (hsaw : x ∈ history ops) (hopen : x.2.done = false)
    (hmid : Transition.run LiveState.step s p.before = some s') (htime : s'.clock ≤ p.time)
    (hperiod : p.time - s.clock ≤ liveGrace)
    (hy : y ∈ history (ops ++ p.before)) (hid : y.1 = x.1) (hdone : y.2.done = true) :
    y.2.sample p.time ∈ (s'.reg.snapshot p.time p.order).2 := by
  have hall : Transition.run LiveState.step { clock := t₀ } (ops ++ p.before) = some s' :=
    Transition.run_append.mpr ⟨s, hrun, hmid⟩
  have hcompleted : LiveOp.complete y.2.ended y.1 ∈ ops ++ p.before :=
    ((dated_of_run hall).finished y hy y.2.ended).mpr ⟨hdone, rfl⟩
  have hnot : LiveOp.complete y.2.ended y.1 ∉ ops := by
    rw [hid, (dated_of_run hrun).finished x hsaw, hopen]
    simp
  have hlate : s.clock ≤ y.2.ended :=
    (clock_le_of_run hmid).2 _ ((List.mem_append.mp hcompleted).resolve_left hnot)
  have hfresh : y.2.stale p.time = false := by
    have hin : p.time - y.2.ended ≤ liveGrace := (Int.sub_le_sub_left hlate p.time).trans hperiod
    simpa [LiveEntry.stale, hdone] using hin
  rw [((tracks_of_run hall).snapshot_perm htime p.order).mem_iff]
  exact List.mem_map_of_mem (List.mem_filter.mpr ⟨hy, by simp [hfresh]⟩)

/-- **A poller sees every end.** The induction is on the polls; the transfer
stays unfinished up to the poll that reports its end. -/
theorem poller_sees_done {polls : List Poll} {x : UInt64 × LiveEntry}
    (hrun : Transition.run LiveState.step { clock := t₀ } ops = some s)
    (hsaw : x ∈ history ops) (hopen : x.2.done = false)
    (hpolls : Transition.run LiveState.step s (polls.flatMap Poll.ops) = some s')
    (hperiod : List.IsChain (fun t t' => t' - t ≤ liveGrace) (s.clock :: polls.map Poll.time))
    (hend : ∃ now, .complete now x.1 ∈ polls.flatMap Poll.ops) :
    SeesDone ops s polls x.1 := by
  induction polls generalizing ops s x with
  | nil => simp at hend
  | cons p polls ih =>
      rw [List.flatMap_cons, Poll.ops, List.append_assoc] at hpolls
      obtain ⟨m, hmid, hrest⟩ := Transition.run_append.mp hpolls
      obtain ⟨m', hpoll, hrest⟩ := Transition.run_cons.mp hrest
      obtain ⟨htime, hclock, -⟩ := liveMoves_of_step hpoll
      obtain ⟨hgap, hperiod'⟩ := List.isChain_cons_cons.mp hperiod
      have hall : Transition.run LiveState.step { clock := t₀ } (ops ++ p.before) = some m :=
        Transition.run_append.mpr ⟨s, hrun, hmid⟩
      obtain ⟨y, hy, hid⟩ := List.mem_map.mp (mem_ids_append p.before (List.mem_map_of_mem hsaw))
      cases hdone : y.2.done with
      | true =>
          exact ⟨[], p, polls, rfl, m, hmid, y, hy, hid, y.2.sample p.time,
            ended_seen hrun hsaw hopen hmid htime hgap hy hid hdone, y.2.sample_reports p.time,
            hdone⟩
      | false =>
          have hnext : Transition.run LiveState.step { clock := t₀ } (ops ++ p.ops) = some m' := by
            rw [Poll.ops, ← List.append_assoc]
            exact Transition.run_append.mpr ⟨m, hall, Transition.run_cons.mpr ⟨m', hpoll, rfl⟩⟩
          have hend' : ∃ now, LiveOp.complete now y.1 ∈ polls.flatMap Poll.ops := by
            obtain ⟨now, hmem⟩ := hend
            have hnot : LiveOp.complete now y.1 ∉ ops ++ p.before := by
              rw [(dated_of_run hall).finished y hy, hdone]
              simp
            rw [← hid] at hmem
            refine ⟨now, ?_⟩
            simp only [List.flatMap_cons, Poll.ops, List.mem_append, List.mem_singleton,
              reduceCtorEq, or_false] at hmem hnot
            tauto
          have hy' : y ∈ history (ops ++ p.ops) := by
            simpa [Poll.ops, record, ← List.append_assoc] using hy
          have hsee := ih hnext hy' hdone hrest (by rw [hclock]; exact hperiod') hend'
          obtain ⟨earlier, q, later, rfl, sq, hq, z, hz, hzid, hsample⟩ := hsee
          refine ⟨p :: earlier, q, later, rfl, sq, ?_, z, ?_, hzid.trans hid, hsample⟩
          · rw [List.flatMap_cons, Poll.ops, List.append_assoc, List.append_assoc]
            exact Transition.run_append.mpr ⟨m, hmid, Transition.run_cons.mpr ⟨m', hpoll, hq⟩⟩
          · simpa [List.append_assoc] using hz

end Poller

/-- **Snapshots are exact.** After any run, a snapshot at `t` returns one
sample for each transfer on record that is unfinished or ended within the
window, up to the order of the iteration, and each sample says what the
record says. The record has every `begin`, every completion and the last
count of every transfer of the run. Other snapshots make no difference, and
a poller that comes back within the window sees each transfer it saw in
flight end. -/
theorem snapshot_exact {t₀ : Time} {ops : List LiveOp} {s : LiveState}
    (hrun : Transition.run LiveState.step { clock := t₀ } ops = some s) :
    (∀ t order, s.clock ≤ t → Reported
      ((history ops).filter fun x => !x.2.done || decide (t - x.2.ended ≤ liveGrace)) t
      (s.reg.snapshot t order).2) ∧
    ((history ops).map (fun x => (x.2.start, x.2.test, x.2.ref, x.2.peer))
      = ops.filterMap LiveOp.begun ∧
      (history ops).map (fun x => x.1.toNat) = List.range' 1 (history ops).length ∧
      ∀ x ∈ history ops,
        (∀ now, .complete now x.1 ∈ ops ↔ x.2.done = true ∧ x.2.ended = now) ∧
        x.2.bytes = bytesStored ops x.1) ∧
    (∀ t₀' ops' s', Transition.run LiveState.step { clock := t₀' } ops' = some s' →
      ops'.filter (fun o => !o.isSnapshot) = ops.filter (fun o => !o.isSnapshot) →
      ∀ t order order', s.clock ≤ t → s'.clock ≤ t →
        (s'.reg.snapshot t order').2.Perm (s.reg.snapshot t order).2) ∧
    ∀ polls s', Transition.run LiveState.step s (polls.flatMap Poll.ops) = some s' →
      List.IsChain (fun t t' => t' - t ≤ liveGrace) (s.clock :: polls.map Poll.time) →
      ∀ x ∈ history ops, x.2.done = false →
        (∃ now, .complete now x.1 ∈ polls.flatMap Poll.ops) → SeesDone ops s polls x.1 := by
  have htracks := tracks_of_run hrun
  refine ⟨?_, ⟨history_begun ops, htracks.ids, ?_⟩, ?_, ?_⟩
  · intro t order htime
    exact htracks.snapshot_reported htime order
  · intro x hx
    exact ⟨(dated_of_run hrun).finished x hx, (dated_of_run hrun).stored x hx⟩
  · intro t₀' ops' s' hrun' hsame t order order' htime htime'
    have hhistory : history ops' = history ops := by
      rw [← history_filter ops', hsame, history_filter]
    have htracks' := tracks_of_run hrun'
    rw [hhistory] at htracks'
    exact (htracks'.snapshot_perm htime' order').trans (htracks.snapshot_perm htime order).symm
  · intro polls s' hpolls hperiod x hx hopen hend
    exact poller_sees_done hrun hx hopen hpolls hperiod hend

/-- An upload begun at 0 that ends at 5 s, and a poll every 10 s. -/
theorem snapshot_exact_twoPolls :
    ∃ s, Transition.run LiveState.step { clock := 0 }
        [.begin 0 "http_upload" "" "", .snapshot 0 .inOrder] = some s ∧
      SeesDone [.begin 0 "http_upload" "" "", .snapshot 0 .inOrder] s
        [⟨[.complete (5 * second) 1], 10 * second, .inOrder⟩] 1 := by
  have hrun : Transition.run LiveState.step { clock := 0 }
    [.begin 0 "http_upload" "" "", .snapshot 0 .inOrder] = some _ := rfl
  refine ⟨_, hrun, ?_⟩
  have hpoller := (snapshot_exact hrun).2.2.2
    [⟨[.complete (5 * second) 1], 10 * second, .inOrder⟩] _ rfl (by simp)
  exact hpoller (1, { test := "http_upload", ref := "", peer := "", start := 0 })
    List.mem_cons_self rfl ⟨5 * second, List.mem_cons_self⟩

end Diagd.Tr143

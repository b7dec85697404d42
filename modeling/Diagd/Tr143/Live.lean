import Diagd.Lib.GoStd
import Diagd.Lib.Retention
import Diagd.Lib.Transition

/-!
# The live transfer registry (`live.go`)

`begin` registers a transfer, the hook it returns completes it, and
`snapshot` reports every transfer in flight or finished within the grace
window; only `snapshot` removes what is older. The map is the list of its
entries in the order they were made, and the order in which Go iterates over
it is an arbitrary permutation (`IterOrder`). The ids count up from 1 in a
`uint64`; a run makes fewer than 2^64 transfers, so that none is used twice.

What the registry is for is said by `history`: every transfer ever begun,
with how it ended, whoever looked. The registry is a pruned view of it
(`Tracks`), and the record is right about the completions (`Dated`).
-/

namespace Diagd.Tr143

open GoStd Retention

abbrev liveGrace : Duration := 15 * second

/-- One test as `/live` reports it. -/
structure LiveTransfer where
  test : String
  ref : String
  peer : String
  bytes : Int64
  elapsedMS : Int
  done : Bool
  deriving DecidableEq, Repr

structure LiveEntry where
  test : String
  ref : String
  peer : String
  start : Time
  bytes : Int64 := 0
  done : Bool := false
  ended : Time := 0
  deriving DecidableEq, Repr

structure LiveRegistry where
  seq : UInt64 := 0
  live : List (UInt64 × LiveEntry) := []
  deriving DecidableEq, Repr

/-- The order in which a loop visits the map. -/
structure IterOrder where
  visit : List (UInt64 × LiveEntry) → List (UInt64 × LiveEntry)
  perm : ∀ entries, (visit entries).Perm entries

/-! ## The code -/

namespace LiveEntry

/-- Finished for longer than the grace window. -/
def stale (e : LiveEntry) (now : Time) : Bool := e.done && decide (liveGrace < now - e.ended)

/-- Frozen at completion. -/
def elapsed (e : LiveEntry) (now : Time) : Duration :=
  if e.done then e.ended - e.start else now - e.start

def sample (e : LiveEntry) (now : Time) : LiveTransfer where
  test := e.test
  ref := e.ref
  peer := e.peer
  bytes := e.bytes
  elapsedMS := Duration.milliseconds (e.elapsed now)
  done := e.done

end LiveEntry

/-- `f` applied to the entry with this id, which its holder has a pointer to. -/
def modifyEntry (id : UInt64) (f : LiveEntry → LiveEntry) (x : UInt64 × LiveEntry) :
    UInt64 × LiveEntry :=
  if x.1 = id then (x.1, f x.2) else x

namespace LiveRegistry

/-- `delete(r.live, id)`. -/
def delete (r : LiveRegistry) (id : UInt64) : LiveRegistry :=
  { r with live := r.live.filter fun x => x.1 != id }

/-- `r.begin(test, ref, peer)`; the transfer is known by its id. -/
def begin (r : LiveRegistry) (now : Time) (test ref peer : String) : LiveRegistry × UInt64 :=
  ({ seq := r.seq + 1
     live := (r.delete (r.seq + 1)).live ++
       [(r.seq + 1, { test := test, ref := ref, peer := peer, start := now })] },
    r.seq + 1)

/-- The hook returned by `begin`. -/
def complete (r : LiveRegistry) (now : Time) (id : UInt64) : LiveRegistry :=
  { r with live := r.live.map (modifyEntry id fun e => { e with done := true, ended := now }) }

/-- `e.bytes.Store(n)`. -/
def store (r : LiveRegistry) (id : UInt64) (n : Int64) : LiveRegistry :=
  { r with live := r.live.map (modifyEntry id fun e => { e with bytes := n }) }

/-- The loop of `snapshot` over the entries that are left to visit. -/
def snapshotLoop (now : Time) :
    List (UInt64 × LiveEntry) → LiveRegistry → List LiveTransfer → LiveRegistry × List LiveTransfer
  | [], r, out => (r, out)
  | (id, e) :: rest, r, out =>
      if e.stale now then snapshotLoop now rest (r.delete id) out
      else snapshotLoop now rest r (out ++ [e.sample now])

def snapshot (r : LiveRegistry) (now : Time) (order : IterOrder) :
    LiveRegistry × List LiveTransfer :=
  snapshotLoop now (order.visit r.live) r []

/-- A transfer that has begun and not completed. -/
def inFlight (r : LiveRegistry) (id : UInt64) : Bool :=
  r.live.any fun x => x.1 == id && !x.2.done

end LiveRegistry

/-! ## Runs -/

inductive LiveOp where
  | begin (now : Time) (test ref peer : String)
  | complete (now : Time) (id : UInt64)
  | store (now : Time) (id : UInt64) (n : Int64)
  | snapshot (now : Time) (order : IterOrder)

namespace LiveOp

def time : LiveOp → Time
  | .begin now _ _ _ | .complete now _ | .store now _ _ | .snapshot now _ => now

def isSnapshot : LiveOp → Bool
  | .snapshot _ _ => true
  | .begin _ _ _ _ | .complete _ _ | .store _ _ _ => false

end LiveOp

/-- The registry and the time of the last operation. -/
structure LiveState where
  clock : Time
  reg : LiveRegistry := {}

/-- Time does not go back; the ids are not used up; a transfer is completed
once, and counts bytes until then. -/
def LiveState.step (s : LiveState) (o : LiveOp) : Option LiveState :=
  if s.clock ≤ o.time then
    match o with
    | .begin now test ref peer =>
        if s.reg.seq.toNat + 1 < 2 ^ 64 then
          some { clock := now, reg := (s.reg.begin now test ref peer).1 }
        else none
    | .complete now id =>
        if s.reg.inFlight id then some { clock := now, reg := s.reg.complete now id } else none
    | .store now id n =>
        if s.reg.inFlight id then some { clock := now, reg := s.reg.store id n } else none
    | .snapshot now order => some { clock := now, reg := (s.reg.snapshot now order).1 }
  else none

/-! ## What a step can do -/

/-- The operations with their guards. -/
inductive LiveMoves (s : LiveState) : LiveOp → LiveRegistry → Prop where
  | begin (now : Time) (test ref peer : String) (h : s.reg.seq.toNat + 1 < 2 ^ 64) :
      LiveMoves s (.begin now test ref peer) (s.reg.begin now test ref peer).1
  | complete (now : Time) {id : UInt64} (h : s.reg.inFlight id = true) :
      LiveMoves s (.complete now id) (s.reg.complete now id)
  | store (now : Time) {id : UInt64} (n : Int64) (h : s.reg.inFlight id = true) :
      LiveMoves s (.store now id n) (s.reg.store id n)
  | snapshot (now : Time) (order : IterOrder) :
      LiveMoves s (.snapshot now order) (s.reg.snapshot now order).1

theorem liveMoves_of_step {s s' : LiveState} {o : LiveOp} (h : s.step o = some s') :
    s.clock ≤ o.time ∧ s'.clock = o.time ∧ LiveMoves s o s'.reg := by
  obtain ⟨htime, hbody⟩ := Option.ite_none_right_eq_some.mp h
  refine ⟨htime, ?_⟩
  cases o with
  | begin now test ref peer =>
      obtain ⟨hroom, hsome⟩ := Option.ite_none_right_eq_some.mp hbody
      cases hsome
      exact ⟨rfl, .begin now test ref peer hroom⟩
  | complete now id =>
      obtain ⟨hfl, hsome⟩ := Option.ite_none_right_eq_some.mp hbody
      cases hsome
      exact ⟨rfl, .complete now hfl⟩
  | store now id n =>
      obtain ⟨hfl, hsome⟩ := Option.ite_none_right_eq_some.mp hbody
      cases hsome
      exact ⟨rfl, .store now n hfl⟩
  | snapshot now order =>
      cases hbody
      exact ⟨rfl, .snapshot now order⟩

/-! ## Snapshots -/

section Snapshot

variable {now : Time} {r : LiveRegistry}

theorem snapshotLoop_out (entries : List (UInt64 × LiveEntry)) (r : LiveRegistry)
    (out : List LiveTransfer) :
    (LiveRegistry.snapshotLoop now entries r out).2
      = out ++ (entries.filter fun x => !x.2.stale now).map fun x => x.2.sample now := by
  induction entries generalizing r out with
  | nil => simp [LiveRegistry.snapshotLoop]
  | cons x entries ih =>
      obtain ⟨id, e⟩ := x
      cases hstale : e.stale now <;> simp [LiveRegistry.snapshotLoop, hstale, ih]

theorem snapshotLoop_reg (entries : List (UInt64 × LiveEntry)) (r : LiveRegistry)
    (out : List LiveTransfer) :
    (LiveRegistry.snapshotLoop now entries r out).1 = { r with
      live := r.live.filter fun x =>
        !((entries.filter fun y => y.2.stale now).map Prod.fst).contains x.1 } := by
  induction entries generalizing r out with
  | nil => simp [LiveRegistry.snapshotLoop]
  | cons y entries ih =>
      obtain ⟨id, e⟩ := y
      cases hstale : e.stale now with
      | false => simp [LiveRegistry.snapshotLoop, hstale, ih]
      | true =>
          simp [LiveRegistry.snapshotLoop, hstale, ih, LiveRegistry.delete, List.filter_filter,
            Bool.and_comm, bne]

/-- **A snapshot removes exactly the stale entries**, whatever the order of
the iteration. -/
theorem snapshot_reg (hkeys : (r.live.map Prod.fst).Nodup) (order : IterOrder) :
    (r.snapshot now order).1 = { r with live := r.live.filter fun x => !x.2.stale now } := by
  rw [LiveRegistry.snapshot, snapshotLoop_reg]
  congr 1
  apply List.filter_congr
  intro x hx
  -- ids are unique, so an id is among the removed ones only through its own entry
  have hremoved : (((order.visit r.live).filter fun y => y.2.stale now).map Prod.fst).contains x.1
      = x.2.stale now := by
    rw [Bool.eq_iff_iff, List.contains_iff_mem]
    constructor
    · intro hmem
      obtain ⟨y, hy, hxy⟩ := List.mem_map.mp hmem
      obtain ⟨hvisit, hstale⟩ := List.mem_filter.mp hy
      have hyx : y = x :=
        List.inj_on_of_nodup_map hkeys ((order.perm r.live).mem_iff.mp hvisit) hx hxy
      exact hyx ▸ hstale
    · intro hstale
      exact List.mem_map_of_mem
        (List.mem_filter.mpr ⟨(order.perm r.live).mem_iff.mpr hx, hstale⟩)
  rw [hremoved]

/-- What it reports, up to that order. -/
theorem snapshot_out (order : IterOrder) :
    (r.snapshot now order).2.Perm
      ((r.live.filter fun x => !x.2.stale now).map fun x => x.2.sample now) := by
  rw [LiveRegistry.snapshot, snapshotLoop_out, List.nil_append]
  exact ((order.perm r.live).filter _).map _

end Snapshot

/-! ## The record of every transfer -/

/-- What an operation adds to the record; a snapshot adds nothing. -/
def record (all : List (UInt64 × LiveEntry)) : LiveOp → List (UInt64 × LiveEntry)
  | .begin now test ref peer =>
      all ++ [(UInt64.ofNat (all.length + 1),
        { test := test, ref := ref, peer := peer, start := now })]
  | .complete now id => all.map (modifyEntry id fun e => { e with done := true, ended := now })
  | .store _ id n => all.map (modifyEntry id fun e => { e with bytes := n })
  | .snapshot _ _ => all

/-- Every transfer ever begun, in order, as the operations left it. -/
def history (ops : List LiveOp) : List (UInt64 × LiveEntry) := ops.foldl record []

@[simp] theorem history_nil : history [] = [] := rfl

@[simp] theorem history_snoc (ops : List LiveOp) (o : LiveOp) :
    history (ops ++ [o]) = record (history ops) o := by
  simp [history]

/-- Snapshots leave no trace in it. -/
theorem history_filter (ops : List LiveOp) :
    history (ops.filter fun o => !o.isSnapshot) = history ops := by
  induction ops using List.reverseRecOn with
  | nil => rfl
  | append_singleton ops o ih =>
      rw [List.filter_append, history_snoc, ← ih]
      cases o <;> simp [LiveOp.isSnapshot, record]

/-- What an update leaves alone. -/
theorem map_modifyEntry {β : Type} {g : UInt64 × LiveEntry → β} {id : UInt64}
    {f : LiveEntry → LiveEntry} (hg : ∀ x, g (x.1, f x.2) = g x) (xs : List (UInt64 × LiveEntry)) :
    (xs.map (modifyEntry id f)).map g = xs.map g := by
  rw [List.map_map]
  refine List.map_congr_left fun x _ => ?_
  simp only [Function.comp_apply, modifyEntry]
  split
  · exact hg x
  · rfl

theorem map_modifyEntry_fst (id : UInt64) (f : LiveEntry → LiveEntry)
    (xs : List (UInt64 × LiveEntry)) :
    (xs.map (modifyEntry id f)).map Prod.fst = xs.map Prod.fst :=
  map_modifyEntry (fun _ => rfl) xs

/-- In flight, or finished within the grace window. -/
theorem LiveEntry.not_stale (e : LiveEntry) (t : Time) :
    (!e.stale t) = (!e.done || decide (t - e.ended ≤ liveGrace)) := by
  simp only [LiveEntry.stale, Bool.not_and, ← decide_not, not_lt]

/-- Once stale, always stale. -/
theorem LiveEntry.stale_mono {e : LiveEntry} {t t' : Time} (htime : t ≤ t')
    (h : e.stale t = true) : e.stale t' = true := by
  simp only [LiveEntry.stale, Bool.and_eq_true, decide_eq_true_eq] at h ⊢
  exact ⟨h.1, h.2.trans_le (Int.sub_le_sub_right htime _)⟩

/-- **The invariant**: ids are handed out in order, and the registry is the
record without some of its stale entries. -/
structure Tracks (all : List (UInt64 × LiveEntry)) (s : LiveState) : Prop where
  seq : s.reg.seq.toNat = all.length
  ids : all.map (fun x => x.1.toNat) = List.range' 1 all.length
  retains : Retains (fun x => !x.2.stale s.clock) s.reg.live all

namespace Tracks

variable {all : List (UInt64 × LiveEntry)} {s s' : LiveState} {id : UInt64} {now : Time}

theorem nodup_ids (h : Tracks all s) : (all.map Prod.fst).Nodup := by
  apply List.Nodup.of_map UInt64.toNat
  rw [List.map_map]
  exact h.ids ▸ List.nodup_range'

/-- The next id. -/
theorem seq_succ (h : Tracks all s) : s.reg.seq + 1 = UInt64.ofNat (all.length + 1) := by
  rw [UInt64.ofNat_add, ← h.seq, UInt64.ofNat_toNat]
  rfl

theorem toNat_seq_succ (h : Tracks all s) (hroom : s.reg.seq.toNat + 1 < 2 ^ 64) :
    (UInt64.ofNat (all.length + 1)).toNat = all.length + 1 :=
  UInt64.toNat_ofNat_of_lt' (by rw [← h.seq]; exact hroom)

/-- It has not been handed out before. -/
theorem seq_succ_fresh (h : Tracks all s) (hroom : s.reg.seq.toNat + 1 < 2 ^ 64) :
    ∀ x ∈ all, x.1 ≠ UInt64.ofNat (all.length + 1) := by
  intro x hx hid
  have hmem : x.1.toNat ∈ List.range' 1 all.length :=
    h.ids ▸ List.mem_map_of_mem (f := fun x : UInt64 × LiveEntry => x.1.toNat) hx
  rw [hid, h.toNat_seq_succ hroom, List.mem_range'_1] at hmem
  omega

theorem nodup_keys (h : Tracks all s) : (s.reg.live.map Prod.fst).Nodup :=
  (h.retains.sublist.map Prod.fst).nodup h.nodup_ids

/-- The only entry with the id of a transfer in flight is that transfer. -/
theorem unfinished (h : Tracks all s) (hfl : s.reg.inFlight id = true) {x : UInt64 × LiveEntry}
    (hx : x ∈ all) (hid : x.1 = id) : x.2.done = false := by
  obtain ⟨y, hy, hbits⟩ := List.any_eq_true.mp hfl
  obtain ⟨hyid, hydone⟩ := Bool.and_eq_true_iff.mp hbits
  have hyx : y = x := List.inj_on_of_nodup_map h.nodup_ids (h.retains.sublist.subset hy) hx
    ((beq_iff_eq.mp hyid).trans hid.symm)
  subst hyx
  simpa using hydone

/-- Time passes. -/
theorem retains_later (h : Tracks all s) (htime : s.clock ≤ now) :
    Retains (fun x => !x.2.stale now) s.reg.live all := by
  apply h.retains.mono
  intro x _ hstale
  rw [Bool.not_eq_false'] at hstale ⊢
  exact LiveEntry.stale_mono htime hstale

/-- A transfer in flight is updated through its pointer. -/
theorem modify (h : Tracks all s) (htime : s.clock ≤ now) (hfl : s.reg.inFlight id = true)
    (f : LiveEntry → LiveEntry) :
    Tracks (all.map (modifyEntry id f))
      { clock := now, reg := { s.reg with live := s.reg.live.map (modifyEntry id f) } } where
  seq := by rw [List.length_map]; exact h.seq
  ids := by
    rw [map_modifyEntry (fun _ => rfl), List.length_map]
    exact h.ids
  retains := by
    apply (h.retains_later htime).map
    intro x hx hstale
    -- the entry updated is not finished, so it is not among the stale ones
    have hne : x.1 ≠ id := by
      intro hid
      have hdone := h.unfinished hfl hx hid
      simp [LiveEntry.stale, hdone] at hstale
    rw [modifyEntry, if_neg hne]
    exact hstale

/-- The map has no entry with the new id. -/
theorem begin_live (h : Tracks all s) (hroom : s.reg.seq.toNat + 1 < 2 ^ 64) (now : Time)
    (test ref peer : String) :
    (s.reg.begin now test ref peer).1.live = s.reg.live ++ [(UInt64.ofNat (all.length + 1),
      { test := test, ref := ref, peer := peer, start := now })] := by
  have hkept : (s.reg.delete (UInt64.ofNat (all.length + 1))).live = s.reg.live := by
    refine List.filter_eq_self.mpr fun x hx => ?_
    exact bne_iff_ne.mpr (h.seq_succ_fresh hroom x (h.retains.sublist.subset hx))
  rw [LiveRegistry.begin, h.seq_succ, hkept]

theorem step {o : LiveOp} (h : Tracks all s) (hstep : s.step o = some s') :
    Tracks (record all o) s' := by
  obtain ⟨htime, hclock, hmove⟩ := liveMoves_of_step hstep
  obtain ⟨clock', reg'⟩ := s'
  subst hclock
  cases hmove with
  | begin now test ref peer hroom =>
      refine ⟨?_, ?_, ?_⟩
      · show (s.reg.seq + 1).toNat = (all ++ [_]).length
        rw [h.seq_succ, h.toNat_seq_succ hroom, List.length_append, List.length_singleton]
      · rw [record, List.map_append, List.map_singleton, h.ids, h.toNat_seq_succ hroom,
          List.length_append, List.length_singleton, List.range'_1_concat, Nat.add_comm 1]
      · have hlive := h.begin_live hroom now test ref peer
        rw [record]
        exact hlive ▸ (h.retains_later htime).snoc _
  | complete now hfl => exact h.modify htime hfl _
  | store now n hfl => exact h.modify htime hfl _
  | snapshot now order =>
      change Tracks all { clock := now, reg := (s.reg.snapshot now order).1 }
      rw [snapshot_reg h.nodup_keys]
      exact ⟨h.seq, h.ids, (h.retains_later htime).prune⟩

end Tracks

theorem tracks_of_run {t₀ : Time} {ops : List LiveOp} {s : LiveState}
    (hrun : Transition.run LiveState.step { clock := t₀ } ops = some s) :
    Tracks (history ops) s := by
  refine Transition.run_induction (P := fun ops s => Tracks (history ops) s) ?_ ?_ hrun
  · exact ⟨rfl, rfl, retains_nil⟩
  · intro ops s o s' _ h hstep
    rw [history_snoc]
    exact h.step hstep

/-! ## What the record says -/

namespace LiveOp

/-- The transfer whose holder made the operation. -/
def holder : LiveOp → Option UInt64
  | .complete _ id | .store _ id _ => some id
  | .begin _ _ _ _ | .snapshot _ _ => none

/-- The count stored for this transfer. -/
def stored (id : UInt64) : LiveOp → Option Int64
  | .store _ id' n => if id' = id then some n else none
  | .begin _ _ _ _ | .complete _ _ | .snapshot _ _ => none

theorem holder_of_stored {o : LiveOp} {id : UInt64} {n : Int64} (h : o.stored id = some n) :
    o.holder = some id := by
  cases o with
  | store now id' m => exact congrArg some (Option.ite_none_right_eq_some.mp h).1
  | begin | complete | snapshot => cases h

end LiveOp

/-- The count stored last, 0 at first. -/
def bytesStored (ops : List LiveOp) (id : UInt64) : Int64 :=
  (ops.filterMap (LiveOp.stored id)).getLastD 0

theorem bytesStored_snoc (ops : List LiveOp) (o : LiveOp) (id : UInt64) :
    bytesStored (ops ++ [o]) id = (o.stored id).getD (bytesStored ops id) := by
  rw [bytesStored, List.filterMap_append]
  cases hstored : o.stored id <;> simp [hstored, bytesStored]

/-- The record says of every transfer whether and when it was completed, and
what was counted last. -/
structure Dated (ops : List LiveOp) (all : List (UInt64 × LiveEntry)) : Prop where
  known : ∀ o ∈ ops, ∀ id, o.holder = some id → id ∈ all.map Prod.fst
  finished : ∀ x ∈ all, ∀ now, .complete now x.1 ∈ ops ↔ x.2.done = true ∧ x.2.ended = now
  stored : ∀ x ∈ all, x.2.bytes = bytesStored ops x.1

namespace Dated

variable {ops : List LiveOp} {all : List (UInt64 × LiveEntry)} {s s' : LiveState} {id : UInt64}

/-- Nothing was ever done to an id that is not on record. -/
theorem unknown (h : Dated ops all) (hid : ∀ x ∈ all, x.1 ≠ id) :
    (∀ now, .complete now id ∉ ops) ∧ bytesStored ops id = 0 := by
  have hnone : ∀ o ∈ ops, o.holder ≠ some id := by
    intro o ho hholder
    obtain ⟨x, hx, hsame⟩ := List.mem_map.mp (h.known o ho id hholder)
    exact hid x hx hsame
  refine ⟨fun now hmem => hnone _ hmem rfl, ?_⟩
  have hempty : ops.filterMap (LiveOp.stored id) = [] := by
    rw [List.filterMap_eq_nil_iff]
    intro o ho
    by_contra hsome
    obtain ⟨n, hn⟩ := Option.ne_none_iff_exists'.mp hsome
    exact hnone o ho (LiveOp.holder_of_stored hn)
  rw [bytesStored, hempty]
  rfl

theorem begin (h : Dated ops all) (hfresh : ∀ x ∈ all, x.1 ≠ UInt64.ofNat (all.length + 1))
    (now : Time) (test ref peer : String) :
    Dated (ops ++ [.begin now test ref peer]) (record all (.begin now test ref peer)) where
  known := by
    intro o ho id hholder
    rw [record, List.map_append]
    rcases List.mem_append.mp ho with hold | hnew
    · exact List.mem_append_left _ (h.known o hold id hholder)
    · rw [List.mem_singleton.mp hnew] at hholder
      cases hholder
  finished := by
    intro x hx now'
    rcases List.mem_append.mp hx with hold | hnew
    · rw [← h.finished x hold now']
      simp
    · obtain rfl := List.mem_singleton.mp hnew
      simpa only [List.mem_append, List.mem_singleton, reduceCtorEq, or_false, Bool.false_eq_true,
        false_and, iff_false] using (h.unknown hfresh).1 now'
  stored := by
    intro x hx
    rw [bytesStored_snoc]
    rcases List.mem_append.mp hx with hold | hnew
    · exact h.stored x hold
    · obtain rfl := List.mem_singleton.mp hnew
      exact (h.unknown hfresh).2.symm

/-- An operation of a transfer in flight leaves the others known. -/
theorem known_snoc (h : Dated ops all) (htracks : Tracks all s) (hfl : s.reg.inFlight id = true)
    {o : LiveOp} (ho : o.holder = some id) (f : LiveEntry → LiveEntry) :
    ∀ o' ∈ ops ++ [o], ∀ id', o'.holder = some id' →
      id' ∈ (all.map (modifyEntry id f)).map Prod.fst := by
  intro o' hmem id' hholder
  rw [map_modifyEntry_fst]
  rcases List.mem_append.mp hmem with hold | hnew
  · exact h.known o' hold id' hholder
  · rw [List.mem_singleton.mp hnew, ho] at hholder
    obtain rfl := Option.some.inj hholder
    obtain ⟨y, hy, hbits⟩ := List.any_eq_true.mp hfl
    obtain rfl := beq_iff_eq.mp (Bool.and_eq_true_iff.mp hbits).1
    exact List.mem_map_of_mem (htracks.retains.sublist.subset hy)

theorem complete (h : Dated ops all) (htracks : Tracks all s) (now : Time)
    (hfl : s.reg.inFlight id = true) :
    Dated (ops ++ [.complete now id]) (record all (.complete now id)) where
  known := h.known_snoc htracks hfl rfl _
  finished := by
    intro y hy now'
    obtain ⟨x, hx, rfl⟩ := List.mem_map.mp hy
    by_cases hid : x.1 = id
    · -- not completed before, so this completion is the only one
      have hnot : LiveOp.complete now' x.1 ∉ ops := by
        rw [h.finished x hx now', htracks.unfinished hfl hx hid]
        simp
      simp [modifyEntry, hid, hid ▸ hnot, eq_comm]
    · simp [modifyEntry, hid, h.finished x hx now']
  stored := by
    intro y hy
    obtain ⟨x, hx, rfl⟩ := List.mem_map.mp hy
    rw [bytesStored_snoc]
    unfold modifyEntry
    split <;> exact h.stored x hx

theorem store (h : Dated ops all) (htracks : Tracks all s) (now : Time) (n : Int64)
    (hfl : s.reg.inFlight id = true) :
    Dated (ops ++ [.store now id n]) (record all (.store now id n)) where
  known := h.known_snoc htracks hfl rfl _
  finished := by
    intro y hy now'
    obtain ⟨x, hx, rfl⟩ := List.mem_map.mp hy
    have hsame : LiveOp.complete now' x.1 ∈ ops ++ [.store now id n] ↔ .complete now' x.1 ∈ ops := by
      simp
    unfold modifyEntry
    split <;> exact hsame.trans (h.finished x hx now')
  stored := by
    intro y hy
    obtain ⟨x, hx, rfl⟩ := List.mem_map.mp hy
    rw [bytesStored_snoc]
    by_cases hid : x.1 = id
    · simp [modifyEntry, LiveOp.stored, hid]
    · simp [modifyEntry, LiveOp.stored, hid, Ne.symm hid, h.stored x hx]

theorem snapshot (h : Dated ops all) (now : Time) (order : IterOrder) :
    Dated (ops ++ [.snapshot now order]) all where
  known := by
    intro o ho id hholder
    rcases List.mem_append.mp ho with hold | hnew
    · exact h.known o hold id hholder
    · rw [List.mem_singleton.mp hnew] at hholder
      cases hholder
  finished := by
    intro x hx now'
    rw [← h.finished x hx now']
    simp
  stored := by
    intro x hx
    rw [bytesStored_snoc]
    exact h.stored x hx

theorem step {o : LiveOp} (h : Dated ops all) (htracks : Tracks all s)
    (hstep : s.step o = some s') : Dated (ops ++ [o]) (record all o) := by
  obtain ⟨-, -, hmove⟩ := liveMoves_of_step hstep
  generalize s'.reg = reg' at hmove
  cases hmove with
  | begin now test ref peer hroom => exact h.begin (htracks.seq_succ_fresh hroom) now test ref peer
  | complete now hfl => exact h.complete htracks now hfl
  | store now n hfl => exact h.store htracks now n hfl
  | snapshot now order => exact h.snapshot now order

end Dated

theorem dated_of_run {t₀ : Time} {ops : List LiveOp} {s : LiveState}
    (hrun : Transition.run LiveState.step { clock := t₀ } ops = some s) :
    Dated ops (history ops) := by
  refine Transition.run_induction (P := fun ops _ => Dated ops (history ops)) ?_ ?_ hrun
  · exact ⟨by simp, by simp, by simp⟩
  · intro ops s o s' hrun h hstep
    rw [history_snoc]
    exact h.step (tracks_of_run hrun) hstep

end Diagd.Tr143

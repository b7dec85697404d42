import Diagd.Lib.GoNet
import Diagd.Lib.SharedSlice
import Diagd.Tr143.Http

/-!
# The `/live` endpoint (`ops.go`)

`liveTransfers` takes a snapshot of the registry and filters it twice in
place, by `ref` and by `peer`. The slices are those of `SharedSlice`: both
filters work on the array of the snapshot.

The address is cut off at the last colon of `host:port`. For an IPv6 client
that leaves the BRACKETS: the transfer is found under `[2001:db8::1]` and not
under its address.
-/

namespace Diagd.Cmd

open GoStd GoText GoNet SharedSlice
open Diagd.Tr143 (LiveTransfer HTTPHandler IterOrder)

/-! ## The code -/

structure OpsState where
  /-- `none` is nil. -/
  httpH : Option HTTPHandler := none

/-- `host`, as the loop over the peers computes it. -/
def hostOf (peer : Text) : Text :=
  if 0 < lastIndex peer ':' then peer.take (lastIndex peer ':').toNat else peer

def refMatches (ref : String) (t : LiveTransfer) : Bool := t.ref == ref

def peerMatches (peer : String) (t : LiveTransfer) : Bool := hostOf t.peer.toList == peer.toList

/-- One of the two filters, skipped if the query has no value for it. -/
def filterBy (matcher : String → LiveTransfer → Bool) (value : String)
    (st : Heap LiveTransfer × Slice) : Heap LiveTransfer × Slice :=
  if value ≠ "" then Heap.filterInPlace (matcher value) st.1 st.2 else st

/-- `liveTransfers` behind the call of `Live`. -/
def selectTransfers (ref peer : String) (st : Heap LiveTransfer × Slice) :
    Heap LiveTransfer × Slice :=
  filterBy peerMatches peer (filterBy refMatches ref st)

/-- A slice of `transfers` in an array of its own, with spare capacity. -/
def sliceOf (transfers spare : List LiveTransfer) : Heap LiveTransfer × Slice :=
  ([transfers ++ spare], ⟨0, transfers.length⟩)

/-- The transfers that are reported of `transfers`. -/
def reported (transfers spare : List LiveTransfer) (ref peer : String) : List LiveTransfer :=
  let st := selectTransfers ref peer (sliceOf transfers spare)
  st.1.elems st.2

/-- `o.httpH.Live()`, if there is a handler. -/
def OpsState.live (o : OpsState) (now : Time) (order : IterOrder) : List LiveTransfer :=
  match o.httpH with
  | none => []
  | some h => (h.liveReg.snapshot now order).2

/-- The zero value. -/
def noTransfer : LiveTransfer where
  test := ""
  ref := ""
  peer := ""
  bytes := 0
  elapsedMS := 0
  done := false

/-- `snapshot` has made room for every entry, those it removes included. -/
def OpsState.liveTransfers (o : OpsState) (now : Time) (order : IterOrder) (ref peer : String) :
    OpsState × List LiveTransfer :=
  match o.httpH with
  | none => (o, reported [] [] ref peer)
  | some h =>
      let (reg, out) := h.liveReg.snapshot now order
      ({ httpH := some { h with liveReg := reg } },
        reported out (List.replicate (h.liveReg.live.length - out.length) noTransfer) ref peer)

/-! ## The two filters -/

/-- Whether a transfer passes a filter. -/
def passes (matcher : String → LiveTransfer → Bool) (value : String) (t : LiveTransfer) : Bool :=
  value == "" || matcher value t

section Filters

variable {matcher : String → LiveTransfer → Bool} {st : Heap LiveTransfer × Slice}

theorem filterBy_valid (value : String) (h : st.1.Valid st.2) :
    (filterBy matcher value st).1.Valid (filterBy matcher value st).2 := by
  unfold filterBy
  split
  · exact Heap.filterInPlace_valid h
  · exact h

theorem filterBy_elems (value : String) (h : st.1.Valid st.2) :
    (filterBy matcher value st).1.elems (filterBy matcher value st).2 =
      (st.1.elems st.2).filter (passes matcher value) := by
  unfold filterBy
  split
  · next hne =>
      rw [Heap.filterInPlace_elems h]
      exact List.filter_congr fun t _ => by simp [passes, hne]
  · next hempty =>
      have hvalue : value = "" := not_not.mp hempty
      exact (List.filter_eq_self.mpr fun t _ => by simp [passes, hvalue]).symm

theorem sliceOf_valid (transfers spare : List LiveTransfer) :
    (sliceOf transfers spare).1.Valid (sliceOf transfers spare).2 :=
  ⟨Nat.one_pos, by simp [sliceOf, Heap.array]⟩

theorem sliceOf_elems (transfers spare : List LiveTransfer) :
    (sliceOf transfers spare).1.elems (sliceOf transfers spare).2 = transfers := by
  simp [sliceOf, Heap.elems, Heap.array]

/-- **The report**: the transfers that pass both filters, in order. -/
theorem reported_eq (transfers spare : List LiveTransfer) (ref peer : String) :
    reported transfers spare ref peer =
      transfers.filter fun t => passes refMatches ref t && passes peerMatches peer t := by
  have hvalid := sliceOf_valid transfers spare
  simp only [reported, selectTransfers]
  rw [filterBy_elems peer (filterBy_valid ref hvalid), filterBy_elems ref hvalid,
    sliceOf_elems, List.filter_filter]
  exact List.filter_congr fun t _ => Bool.and_comm _ _

/-- The endpoint reports what is left of the transfers of its handler. -/
theorem liveTransfers_reports (o : OpsState) (now : Time) (order : IterOrder)
    (ref peer : String) :
    ∃ spare, (o.liveTransfers now order ref peer).2 =
      reported (o.live now order) spare ref peer := by
  unfold OpsState.liveTransfers OpsState.live
  cases o.httpH with
  | none => exact ⟨_, rfl⟩
  | some h => exact ⟨_, rfl⟩

end Filters

/-! ## Transfers and their clients -/

/-- A transfer of a client, whose address Go's server has written down. -/
structure Observed where
  transfer : LiveTransfer
  client : AddrPort
  peer_eq : transfer.peer = String.ofList (tcpAddrText client)

namespace Observed

/-- The source address. An IPv4 client of a socket for both families has an
IPv4 address. -/
def source (x : Observed) : Text := addrText x.client.addr.unmap

/-- What the two values of the query ask for. -/
def wanted (ref peer : String) (x : Observed) : Bool :=
  (ref == "" || x.transfer.ref == ref) && (peer == "" || x.source == peer.toList)

/-- An IPv6 client that the filter gets wrong: it was asked for by its address,
which misses it, or in brackets, which finds it. -/
def Misread (ref peer : String) (x : Observed) : Prop :=
  peer ≠ "" ∧ (ref = "" ∨ x.transfer.ref = ref) ∧ x.client.addr.unmap.is4 = false ∧
    (x.source = peer.toList ∨ '[' :: x.source ++ [']'] = peer.toList)

/-- What the cut at the last colon leaves. -/
theorem hostOf_peer (x : Observed) : hostOf x.transfer.peer.toList = bracketed x.source := by
  have hne : bracketed x.source ≠ [] := bracketed_ne_nil (addrText_ne_nil _)
  have hpos : (0 : Int) < (bracketed x.source).length :=
    Int.natCast_pos.mpr (List.length_pos_iff.mpr hne)
  have hlast : lastIndex (tcpAddrText x.client) ':' = (bracketed x.source).length :=
    lastIndex_joinHostPort _ _
  rw [x.peer_eq, String.toList_ofList, hostOf, hlast, if_pos hpos, Int.toNat_natCast, tcpAddrText,
    joinHostPort_eq]
  exact List.take_left

theorem source_eq {x y : Observed} (h : x.transfer = y.transfer) : x.source = y.source := by
  refine bracketed_inj ?_
  rw [← hostOf_peer, ← hostOf_peer, h]

theorem wanted_eq {ref peer : String} {x y : Observed} (h : x.transfer = y.transfer) :
    x.wanted ref peer = y.wanted ref peer := by
  rw [wanted, wanted, source_eq h, h]

/-- Only IPv6 addresses are put into brackets. -/
theorem bracketed_source (x : Observed) : bracketed x.source =
    if x.client.addr.unmap.is4 then x.source else '[' :: x.source ++ [']'] := by
  have hcolon : ':' ∈ x.source ↔ x.client.addr.unmap.is4 = false := colon_mem_addrText _
  unfold bracketed
  cases hfour : x.client.addr.unmap.is4 with
  | true => simp [hcolon, hfour]
  | false => simp [hcolon, hfour]

/-- **The filters agree with the query**, except about a client they misread. -/
theorem passes_eq_wanted_iff (ref peer : String) (x : Observed) :
    (passes refMatches ref x.transfer && passes peerMatches peer x.transfer) = x.wanted ref peer ↔
      ¬ x.Misread ref peer := by
  have hpeer : peerMatches peer x.transfer = (bracketed x.source == peer.toList) := by
    rw [peerMatches, hostOf_peer]
  -- no query asks for the address and for its brackets
  have hboth : ¬ (x.source = peer.toList ∧ '[' :: x.source ++ [']'] = peer.toList) := by
    rintro ⟨hsource, hbrackets⟩
    have hlen := congrArg List.length (hbrackets.trans hsource.symm)
    simp only [List.length_append, List.length_cons, List.length_nil] at hlen
    omega
  rw [passes, passes, hpeer, bracketed_source, wanted, Misread, refMatches, Bool.eq_iff_iff]
  cases hfour : x.client.addr.unmap.is4 with
  | true => simp
  | false =>
      simp only [Bool.and_eq_true, Bool.or_eq_true, beq_iff_eq, Bool.false_eq_true, if_false]
      constructor
      · rintro hagree ⟨hne, href, -, hsource | hbrackets⟩
        · exact hboth ⟨hsource, (hagree.mpr ⟨href, .inr hsource⟩).2.resolve_left hne⟩
        · exact hboth ⟨(hagree.mp ⟨href, .inr hbrackets⟩).2.resolve_left hne, hbrackets⟩
      · intro hread
        refine and_congr_right fun href => or_congr_right' fun hne => ?_
        -- a client that is not misread is asked for in neither form
        have hneither := fun h => hread ⟨hne, href, trivial, h⟩
        exact iff_of_false (fun hbrackets => hneither (.inr hbrackets))
          (fun hsource => hneither (.inl hsource))

end Observed

/-! ## Results -/

/-- Two filters of one list select the same if and only if they agree on it. -/
theorem map_filter_eq_iff {α β : Type} {f : α → β} {p q : α → Bool} {xs : List α}
    (hp : ∀ x y, f x = f y → p x = p y) (hq : ∀ x y, f x = f y → q x = q y) :
    (xs.filter p).map f = (xs.filter q).map f ↔ ∀ x ∈ xs, p x = q x := by
  have hmem : ∀ {r : α → Bool}, (∀ x y, f x = f y → r x = r y) → ∀ x ∈ xs,
      (f x ∈ (xs.filter r).map f ↔ r x = true) := by
    intro r hr x hx
    simp only [List.mem_map, List.mem_filter]
    constructor
    · rintro ⟨y, ⟨-, hy⟩, heq⟩
      rwa [← hr y x heq]
    · intro h
      exact ⟨x, ⟨hx, h⟩, rfl⟩
  constructor
  · intro h x hx
    rw [Bool.eq_iff_iff, ← hmem hp x hx, ← hmem hq x hx, h]
  · intro h
    rw [List.filter_congr h]

/-- A loop that has not written to an element before it reads it. -/
def ReadsFirst (keep : LiveTransfer → Bool) (st : Heap LiveTransfer × Slice) : Prop :=
  ∀ i j, i ≤ st.2.len → i ≤ j →
    ((Heap.filterAfter keep st.1 st.2 i).1.array st.2)[j]? = (st.1.array st.2)[j]?

/-- **The `/live` filters.** Neither loop overwrites what it has still to read,
and both filters together are their conjunction. The report has exactly the
transfers that were asked for, in order, unless there is an IPv6 client among
them that the filter misreads. -/
theorem live_filters_iff (xs : List Observed) (spare : List LiveTransfer) (ref peer : String) :
    let transfers := xs.map Observed.transfer
    ReadsFirst (refMatches ref) (sliceOf transfers spare) ∧
      ReadsFirst (peerMatches peer) (filterBy refMatches ref (sliceOf transfers spare)) ∧
      (reported transfers spare ref peer = (reported transfers spare ref "").filter fun t =>
        decide (t ∈ reported transfers spare "" peer)) ∧
      (∀ (o : OpsState) (now : Time) (order : IterOrder), ∃ spare',
        (o.liveTransfers now order ref peer).2 = reported (o.live now order) spare' ref peer) ∧
      (reported transfers spare ref peer =
          (xs.filter (Observed.wanted ref peer)).map Observed.transfer ↔
        ∀ x ∈ xs, ¬ x.Misread ref peer) := by
  intro transfers
  have hvalid := sliceOf_valid transfers spare
  refine ⟨?_, ?_, ?_, ?_, ?_⟩
  · intro i j hi hij
    exact Heap.filterAfter_unread hvalid hi hij
  · intro i j hi hij
    exact Heap.filterAfter_unread (filterBy_valid ref hvalid) hi hij
  · have hnone : ∀ (matcher : String → LiveTransfer → Bool) t, passes matcher "" t = true :=
      fun _ _ => rfl
    rw [reported_eq, reported_eq, reported_eq, List.filter_filter]
    refine List.filter_congr fun t ht => ?_
    simp [hnone, ht, Bool.and_comm]
  · intro o now order
    exact liveTransfers_reports o now order ref peer
  · rw [reported_eq, List.filter_map, map_filter_eq_iff]
    · exact forall₂_congr fun x _ => x.passes_eq_wanted_iff ref peer
    · intro x y h
      simp [h]
    · intro x y h
      exact Observed.wanted_eq h

/-! ### A client at `2001:db8::1` -/

def sixClient : Observed where
  transfer := { noTransfer with peer := "[2001:db8::1]:40000" }
  client := ⟨.v6 0x20010db8000000000000000000000001#128 "", 40000⟩
  peer_eq := by decide

/-- Asked for by its address, it is not found; in brackets it is. -/
theorem six_client_missed :
    sixClient.wanted "" "2001:db8::1" = true ∧
      reported [sixClient.transfer] [] "" "2001:db8::1" = [] ∧
      reported [sixClient.transfer] [] "" "[2001:db8::1]" = [sixClient.transfer] := by
  decide +kernel

end Diagd.Cmd

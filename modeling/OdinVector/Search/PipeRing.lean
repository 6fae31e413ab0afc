/-
This file follows the reads of `pipe_search` into the slots of its ring of sectors. The reads
that are in flight have slots of their own, so a request that is finished is finished by its
own read, and the main loop ends with no read in flight. A page that was read is intact until
as many reads were sent after its own as the ring has slots.
-/

import OdinVector.Search.PipeFixedPoint
import OdinVector.SlotRing
import Mathlib.Data.List.TakeWhile

namespace OdinVector

variable {Distance : Type} [LinearOrder Distance]

namespace PipeQuery

open PipeState

variable {query : PipeQuery Distance} {left : List Nat} {state : PipeState Distance}

/-! ### The slots of the reads -/

/-- The reads have the slots of the ring in turn, and a read that the disk has is in flight and
not finished. -/
structure Ringed (state : PipeState Distance) : Prop where
  length : state.locked.length = state.unlocked.length + state.onFlightIos.length
  sector : state.sectorIdx = state.locked.length % maxNSectorReads
  slots : state.onFlightIos.map PipeIo.slot =
    (List.range' state.unlocked.length state.onFlightIos.length).map (· % maxNSectorReads)
  holds : SlotRing.Holds maxNSectorReads state.locked fun slot => (state.reqs slot).id
  bufs : ∀ id, ∀ slot ∈ state.idBufMap.lookup id,
    ∃ k, state.unlocked[k]? = some id ∧ slot = k % maxNSectorReads
  device : ∀ read ∈ state.device, ∃ io ∈ state.onFlightIos, read = (io.id, io.slot)
  waiting : ∀ io ∈ state.onFlightIos, state.finished io = true → (io.id, io.slot) ∉ state.device

omit [LinearOrder Distance] in
theorem Ringed.send (ringed : Ringed state) (room : state.onFlightIos.length < maxNSectorReads)
    (item : PipeEntry Distance) : Ringed (state.sendReadReq item) := by
  have slots : (state.sendReadReq item).onFlightIos.map PipeIo.slot =
      (List.range' state.unlocked.length (state.onFlightIos.length + 1)).map
        (· % maxNSectorReads) := by
    show (state.onFlightIos ++ [_]).map PipeIo.slot = _
    rw [List.map_append, ringed.slots, List.range'_1_concat, List.map_append, List.map_singleton,
      List.map_singleton, ← ringed.length, ← ringed.sector]
  have apart : ∀ io ∈ state.onFlightIos, io.slot ≠ state.sectorIdx := by
    have turns := SlotRing.nodup_turns state.unlocked.length (Nat.succ_le_of_lt room)
    rw [← slots] at turns
    have split : (state.sendReadReq item).onFlightIos.map PipeIo.slot =
        state.onFlightIos.map PipeIo.slot ++ [state.sectorIdx] := List.map_append
    rw [split] at turns
    intro io member same
    exact (List.nodup_append.mp turns).2.2 io.slot (List.mem_map_of_mem member) state.sectorIdx
      (List.mem_singleton_self _) same
  refine ⟨?_, ?_, ?_, ?_, ringed.bufs, ?_, ?_⟩
  · show (state.locked ++ [_]).length = state.unlocked.length + (state.onFlightIos ++ [_]).length
    rw [List.length_append, List.length_append, ringed.length, List.length_singleton,
      List.length_singleton, Nat.add_assoc]
  · show (state.sectorIdx + 1) % maxNSectorReads = (state.locked ++ [_]).length % maxNSectorReads
    rw [List.length_append, List.length_singleton, ringed.sector, Nat.mod_add_mod]
  · rw [slots]
    show _ = (List.range' state.unlocked.length (state.onFlightIos ++ [_]).length).map _
    rw [List.length_append, List.length_singleton]
  · have reqs : (fun slot => ((state.sendReadReq item).reqs slot).id) =
        Function.update (fun slot => (state.reqs slot).id)
          (state.locked.length % maxNSectorReads) item.id := by
      funext slot
      show (Function.update state.reqs state.sectorIdx ⟨item.id, false⟩ slot).id = _
      rw [← ringed.sector]
      by_cases same : slot = state.sectorIdx
      · rw [same, Function.update_self, Function.update_self]
      · rw [Function.update_of_ne same, Function.update_of_ne same]
    rw [reqs]
    exact ringed.holds.send item.id
  · intro read member
    obtain old | last := List.mem_append.mp member
    · obtain ⟨io, inFlight, same⟩ := ringed.device read old
      exact ⟨io, List.mem_append_left _ inFlight, same⟩
    · exact ⟨_, List.mem_append_right _ (List.mem_singleton_self _), List.mem_singleton.mp last⟩
  · intro io member finished
    obtain old | last := List.mem_append.mp member
    · have different := apart io old
      have before : state.finished io = true := by
        have other : (state.sendReadReq item).reqs io.slot = state.reqs io.slot :=
          Function.update_of_ne different _ _
        unfold PipeState.finished at finished ⊢
        rwa [other] at finished
      intro either
      obtain inDevice | new := List.mem_append.mp either
      · exact ringed.waiting io old before inDevice
      · exact different (congrArg Prod.snd (List.mem_singleton.mp new))
    · have fresh : (state.sendReadReq item).reqs state.sectorIdx = ⟨item.id, false⟩ :=
        Function.update_self _ _ _
      rw [List.mem_singleton.mp last] at finished
      unfold PipeState.finished at finished
      rw [fresh] at finished
      exact absurd finished Bool.false_ne_true

omit [LinearOrder Distance] in
theorem Ringed.sends {items : List (PipeEntry Distance)} (ringed : Ringed state)
    (room : state.onFlightIos.length + items.length ≤ maxNSectorReads) :
    Ringed (items.foldl sendReadReq state) := by
  induction items generalizing state with
  | nil => exact ringed
  | cons item items inductionHypothesis =>
    rw [List.length_cons] at room
    refine inductionHypothesis (ringed.send (by omega) item) ?_
    show (state.onFlightIos ++ [_]).length + items.length ≤ maxNSectorReads
    rw [List.length_append, List.length_singleton]
    omega

omit [LinearOrder Distance] in
theorem Ringed.sendBestReadReq {n : Nat} (ringed : Ringed state)
    (room : state.onFlightIos.length + n ≤ maxNSectorReads) :
    Ringed (state.sendBestReadReq n) := by
  obtain ⟨items, few, sent⟩ := sendFrom_items n state.retset state
  have after : Ringed (items.foldl sendReadReq state) := ringed.sends (by omega)
  rw [← sent] at after
  exact { after with }

omit [LinearOrder Distance] in
/-- The reads that are in flight have different slots. -/
theorem Ringed.eq_of_slot_eq (ringed : Ringed state)
    (narrow : state.onFlightIos.length ≤ maxNSectorReads) {first second : PipeIo Distance}
    (inFirst : first ∈ state.onFlightIos) (inSecond : second ∈ state.onFlightIos)
    (same : first.slot = second.slot) : first = second := by
  have turns := SlotRing.nodup_turns state.unlocked.length narrow
  rw [← ringed.slots] at turns
  exact List.inj_on_of_nodup_map turns inFirst inSecond same

omit [LinearOrder Distance] in
theorem Ringed.readerPoll (ringed : Ringed state)
    (narrow : state.onFlightIos.length ≤ maxNSectorReads) (completes : List Nat) :
    Ringed (state.readerPoll completes) := by
  refine { ringed with
    holds := ?_
    device := fun read member => ringed.device read (List.mem_of_mem_filter member)
    waiting := fun io member finished inDevice => ?_ }
  · have reqs : (fun slot => ((state.readerPoll completes).reqs slot).id) =
        fun slot => (state.reqs slot).id := by
      funext slot
      show (if _ then { state.reqs slot with finished := true } else state.reqs slot).id = _
      split <;> rfl
    rw [reqs]
    exact ringed.holds
  · obtain ⟨before, incomplete⟩ := List.mem_filter.mp inDevice
    have notComplete : io.id ∉ completes := of_decide_eq_true incomplete
    have old : state.finished io ≠ true := fun old => ringed.waiting io member old before
    have seen : ¬ ∃ read ∈ state.device, read.1 ∈ completes ∧ read.2 = io.slot := by
      rintro ⟨read, there, complete, slot⟩
      obtain ⟨other, inFlight, rfl⟩ := ringed.device read there
      obtain rfl := ringed.eq_of_slot_eq narrow inFlight member slot
      exact notComplete complete
    have same : (state.readerPoll completes).reqs io.slot = state.reqs io.slot := if_neg seen
    unfold PipeState.finished at finished old
    rw [same] at finished
    exact old finished

omit [LinearOrder Distance] in
theorem lookup_insertBuf {idBufMap : List (Nat × Nat)} {io : PipeIo Distance} {id slot : Nat}
    (there : slot ∈ (insertBuf idBufMap io).lookup id) :
    slot ∈ idBufMap.lookup id ∨ id = io.id ∧ slot = io.slot := by
  unfold insertBuf at there
  split at there
  · exact Or.inl there
  · rw [List.lookup_cons] at there
    by_cases same : id = io.id
    · rw [beq_iff_eq.mpr same] at there
      exact Or.inr ⟨same, (Option.some.inj there).symm⟩
    · rw [beq_false_of_ne same] at there
      exact Or.inl there

omit [LinearOrder Distance] in
theorem Ringed.popAll {done rest : List (PipeIo Distance)}
    (ringed : Ringed { state with onFlightIos := done ++ rest })
    (finished : ∀ io ∈ done, state.finished io = true) :
    Ringed { state with
      onFlightIos := rest
      idBufMap := done.foldl insertBuf state.idBufMap
      unlocked := state.unlocked ++ done.map PipeIo.id } := by
  induction done generalizing state with
  | nil =>
    rw [List.map_nil, List.append_nil]
    exact ringed
  | cons io done inductionHypothesis =>
    have length : state.locked.length = state.unlocked.length + (io :: (done ++ rest)).length :=
      ringed.length
    have slots : (io :: (done ++ rest)).map PipeIo.slot =
        (List.range' state.unlocked.length (io :: (done ++ rest)).length).map
          (· % maxNSectorReads) := ringed.slots
    rw [List.length_cons] at length
    rw [List.length_cons, List.map_cons, List.range'_succ, List.map_cons] at slots
    obtain ⟨slot, slots⟩ := List.cons_eq_cons.mp slots
    have grown : (state.unlocked ++ [io.id]).length = state.unlocked.length + 1 := by
      rw [List.length_append, List.length_singleton]
    have popped : Ringed { state with
        onFlightIos := done ++ rest
        idBufMap := insertBuf state.idBufMap io
        unlocked := state.unlocked ++ [io.id] } := by
      refine ⟨?_, ringed.sector, ?_, ringed.holds, ?_, ?_, ?_⟩
      · show state.locked.length = (state.unlocked ++ [io.id]).length + (done ++ rest).length
        rw [grown]
        omega
      · show (done ++ rest).map PipeIo.slot =
          (List.range' (state.unlocked ++ [io.id]).length (done ++ rest).length).map _
        rw [grown]
        exact slots
      · intro id place there
        obtain old | ⟨rfl, rfl⟩ := lookup_insertBuf there
        · obtain ⟨k, unlocked, same⟩ := ringed.bufs id place old
          obtain ⟨inside, -⟩ := List.getElem?_eq_some_iff.mp unlocked
          exact ⟨k, (List.getElem?_append_left inside).trans unlocked, same⟩
        · refine ⟨state.unlocked.length, ?_, slot⟩
          show (state.unlocked ++ [io.id])[state.unlocked.length]? = some io.id
          rw [List.getElem?_append_right le_rfl, Nat.sub_self, List.getElem?_cons_zero]
      · intro read member
        obtain ⟨other, inFlight, rfl⟩ := ringed.device read member
        obtain rfl | later := List.mem_cons.mp inFlight
        · exact absurd member (ringed.waiting other List.mem_cons_self
            (finished other List.mem_cons_self))
        · exact ⟨other, later, rfl⟩
      · exact fun other member => ringed.waiting other (List.mem_cons_of_mem _ member)
    have all := @inductionHypothesis { state with
      idBufMap := insertBuf state.idBufMap io
      unlocked := state.unlocked ++ [io.id] } popped
      fun other member => finished other (List.mem_cons_of_mem _ member)
    dsimp only at all
    rw [List.append_assoc] at all
    exact all

theorem Ringed.pollAll (ringed : Ringed state) : Ringed state.pollAll.1 := by
  refine @Ringed.popAll _ state _ _ ?_ fun io member =>
    (List.mem_takeWhile_imp member : state.finished io = true)
  rw [List.takeWhile_append_dropWhile]
  exact ringed

theorem Ringed.poll (ringed : Ringed state) (paced : query.Paced state)
    (narrow : query.beamWidth ≤ maxNSectorReads) (completes : List Nat) :
    Ringed (query.poll completes state) := by
  have width : max 4 query.beamWidth ≤ maxNSectorReads :=
    Nat.max_le.mpr ⟨by decide, narrow⟩
  have tuned := (paced.pollAll completes).tune
    (state.readerPoll completes).pollAll.2.1 (state.readerPoll completes).pollAll.2.2
  have polled := (ringed.readerPoll (paced.inFlight.trans width) completes).pollAll
  have kept : Ringed (query.tune (state.readerPoll completes).pollAll.2.1
      (state.readerPoll completes).pollAll.2.2 (state.readerPoll completes).pollAll.1) := by
    unfold PipeQuery.tune
    split
    · exact { polled with }
    · exact polled
  unfold PipeQuery.poll
  dsimp only
  split
  · rename_i room
    exact kept.sendBestReadReq (room.trans_le (tuned.atMost.trans width))
  · exact kept

theorem Ringed.turn (ringed : Ringed state) (paced : query.Paced state)
    (narrow : query.beamWidth ≤ maxNSectorReads) (turn : PipeTurn Distance) :
    Ringed (query.turn turn state) := by
  have polled := ringed.poll paced narrow turn.completes
  obtain ⟨same, -⟩ | ⟨id, marked, -, next⟩ :=
    query.calcBestNode_cases turn.torn (query.poll turn.completes state)
  · unfold PipeQuery.turn
    dsimp only
    rw [same]
    exact { polled with }
  · unfold PipeQuery.turn
    dsimp only
    rw [next, expand_eq]
    exact { polled with }

omit [LinearOrder Distance] in
theorem ringed_begin : Ringed query.begin where
  length := rfl
  sector := rfl
  slots := rfl
  holds _ _ there := absurd there nofun
  bufs _ _ there := absurd there nofun
  device _ member := absurd member List.not_mem_nil
  waiting _ member := absurd member List.not_mem_nil

/-- There is a run only with a beam width that is not too large. -/
theorem narrow {guard : PipeState Distance → PipeTurn Distance → Prop}
    (reachable : query.search.Reachable guard state) : query.beamWidth ≤ maxNSectorReads := by
  induction reachable with
  | initial begins => exact (start_eq begins).1
  | step _ _ _ inductionHypothesis => exact inductionHypothesis

theorem ringed {guard : PipeState Distance → PipeTurn Distance → Prop}
    (reachable : query.search.Reachable guard state) : Ringed state := by
  induction reachable with
  | initial begins =>
    rw [(start_eq begins).2]
    have room : query.begin.onFlightIos.length + 4 ≤ maxNSectorReads :=
      Nat.le_of_ble_eq_true rfl
    have sent : Ringed (query.begin.sendBestReadReq 4) := ringed_begin.sendBestReadReq room
    exact { sent with }
  | step before admitted taken inductionHypothesis =>
    rw [search_step taken]
    exact inductionHypothesis.turn (paced before) (narrow before) _

/-! ### Nothing is left in flight -/

/-- When the main loop ends, whatever the order in which the reads complete, no read is in
flight: all that were sent are complete, and every lock was released once. -/
theorem search_nothing_inFlight (query : PipeQuery Distance) (distinct : query.entryIds.Nodup)
    (some : 0 < query.lSearch) {state : PipeState Distance}
    (reachable : query.search.Reachable Transition.anyStep state) (ended : state.Ended) :
    state.onFlightIos = [] ∧ state.device = [] ∧ state.unlocked = state.locked ∧
      state.locked.Nodup := by
  have reading := (query.piping distinct some reachable).reading
  have unlocked : ∀ entry ∈ state.retset, entry.id ∈ state.unlocked := fun entry member =>
    reading.expandedRead entry.id ((reading.opened entry member).mp (ended entry member))
  have apart : ∀ id ∈ state.unlocked, id ∉ state.onFlightIos.map PipeIo.id := by
    intro id inUnlocked inFlight
    have once := reading.once
    rw [reading.locked] at once
    exact (List.nodup_append.mp once).2.2 id inUnlocked id inFlight rfl
  have empty : state.onFlightIos = [] := by
    cases queue : state.onFlightIos with
    | nil => rfl
    | cons io later =>
      -- The read at the front waits for an entry that is not expanded.
      obtain ⟨entry, member, waits⟩ := reading.awaited [] io later queue
      have read := unlocked entry member
      rw [queue] at apart
      obtain its | unsent | behind := waits
      · exact absurd List.mem_cons_self (its ▸ apart entry.id read)
      · exact absurd (reading.unlocked_subset read) unsent
      · exact absurd (List.mem_cons_of_mem _ behind) (apart entry.id read)
  refine ⟨empty, List.eq_nil_iff_forall_not_mem.mpr fun read member => ?_, ?_, reading.once⟩
  · obtain ⟨io, inFlight, -⟩ := (ringed reachable).device read member
    rw [empty] at inFlight
    exact absurd inFlight List.not_mem_nil
  · rw [reading.locked, empty, List.map_nil, List.append_nil]

/-- Four nodes, of which the third one is pushed out of the list by the last one. -/
def pushedOut : PipeQuery Nat where
  disk id := ⟨id, if id = 0 then [1, 2] else if id = 1 then [3] else []⟩
  pqDist id := if id = 0 then 3 else if id = 3 then 0 else id
  medoid := 0
  memTags := []
  memDist := id
  lSearch := 2
  beamWidth := 2

/-- The state before the main loop in `pushedOut`. -/
def pushedOutStart : PipeState Nat :=
  pushedOut.start.get (by decide +kernel)

/-- The turns of a search in `pushedOut`: the read of the third node completes last. -/
def pushedOutTurns : List (PipeTurn Nat) :=
  [[0], [], [], [1], [], [3], [2]].map fun completes => ⟨completes, ⟨0, []⟩⟩

/-- The read of the node that is pushed out while it is in flight is waited for. -/
theorem search_nothing_inFlight_pushedOut :
    let last := pushedOut.search.after pushedOutStart pushedOutTurns
    2 ∈ last.locked ∧ last.onFlightIos = [] ∧ last.device = [] ∧ last.unlocked = last.locked ∧
      last.locked.Nodup := by
  have begins : pushedOut.start = some pushedOutStart := (Option.some_get _).symm
  have reachable : pushedOut.search.Reachable Transition.anyStep
      (pushedOut.search.after pushedOutStart pushedOutTurns) :=
    .after (.initial begins) Transition.System.along_anyStep
  exact ⟨by decide +kernel,
    search_nothing_inFlight pushedOut (by decide) (by decide) reachable (by decide +kernel)⟩

end PipeQuery

end OdinVector

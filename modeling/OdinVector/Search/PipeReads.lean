/-
This file proves that `pipe_search` leaves no read in flight and reaches a fixed point.

Of the entries of `retset`, those that are not expanded are not sent, in flight or read.
A read that is in flight is waited for: its node, or another one that is sent later, is an
entry that is not expanded. An entry that is pushed out of the list makes no difference,
because the new one is sent later than every read that is in flight.
-/

import OdinVector.Search.Pipe

namespace OdinVector

variable {Distance : Type} [LinearOrder Distance]

namespace PipeQuery

open PipeState

variable {query : PipeQuery Distance} {left : List Nat} {state : PipeState Distance}

/-! ### The reads -/

/-- A read is waited for: its node is in the list, or a node is that is sent later. -/
def Awaited (retset : List (PipeEntry Distance)) (locked : List Nat) (io : PipeIo Distance)
    (later : List (PipeIo Distance)) : Prop :=
  ∃ entry ∈ retset, entry.id = io.id ∨ entry.id ∉ locked ∨ entry.id ∈ later.map PipeIo.id

/-- What holds of the reads while the neighbours in `left` are to be offered to the list. -/
structure Reading (left : List Nat) (state : PipeState Distance) : Prop where
  locked : state.locked = state.unlocked ++ state.onFlightIos.map PipeIo.id
  once : state.locked.Nodup
  seen : ∀ id ∈ state.locked, id ∈ state.visited
  fresh : left.Nodup
  toOffer : ∀ nbr ∈ left, nbr ∈ state.visited ∧ nbr ∉ state.locked
  listed : ∀ entry ∈ state.retset, entry.id ∈ state.visited ∧ entry.id ∉ left
  apart : (Retset.ids PipeEntry.toPoolEntry state.retset).Nodup
  flagged : ∀ entry ∈ state.retset, entry.flag = true ↔ entry.id ∉ state.locked
  opened : ∀ entry ∈ state.retset, entry.visited = true ↔ entry.id ∈ state.expanded
  expandedOnce : state.expanded.Nodup
  expandedRead : ∀ id ∈ state.expanded, id ∈ state.unlocked
  read : ∀ id, state.isRead id = true ↔ id ∈ state.unlocked
  awaited : ∀ before io later, state.onFlightIos = before ++ io :: later →
    Awaited state.retset state.locked io later

omit [LinearOrder Distance] in
theorem Reading.unlocked_subset (reading : Reading left state) {id : Nat}
    (member : id ∈ state.unlocked) : id ∈ state.locked := by
  rw [reading.locked]
  exact List.mem_append_left _ member

omit [LinearOrder Distance] in
theorem Awaited.replace {before rest : List (PipeEntry Distance)}
    {entry changed : PipeEntry Distance} (same : changed.id = entry.id) {locked : List Nat}
    {io : PipeIo Distance} {later : List (PipeIo Distance)}
    (awaited : Awaited (before ++ entry :: rest) locked io later) :
    Awaited (before ++ changed :: rest) locked io later := by
  obtain ⟨other, member, waits⟩ := awaited
  obtain inFirst | inSecond := List.mem_append.mp member
  · exact ⟨other, List.mem_append_left _ inFirst, waits⟩
  · obtain rfl | inRest := List.mem_cons.mp inSecond
    · exact ⟨changed, List.mem_append_right _ List.mem_cons_self, same ▸ waits⟩
    · exact ⟨other, List.mem_append_right _ (List.mem_cons_of_mem _ inRest), waits⟩

omit [LinearOrder Distance] in
/-- A longer queue, split at one of its reads. -/
theorem split_concat {queue first later : List (PipeIo Distance)} {last io : PipeIo Distance}
    (split : queue ++ [last] = first ++ io :: later) :
    later = [] ∧ io = last ∨ ∃ between, later = between ++ [last] ∧ queue = first ++ io :: between := by
  obtain rfl | ⟨between, final, rfl⟩ := List.eq_nil_or_concat later
  · exact Or.inl ⟨rfl, (List.append_singleton_inj.mp split).2.symm⟩
  · rw [List.concat_eq_append, ← List.cons_append, ← List.append_assoc] at split
    obtain ⟨rest, rfl⟩ := List.append_singleton_inj.mp split
    exact Or.inr ⟨between, List.concat_eq_append, rest⟩

omit [LinearOrder Distance] in
/-- The read of an entry is sent. -/
theorem Reading.send {before rest : List (PipeEntry Distance)} {entry : PipeEntry Distance}
    (reading : Reading left { state with retset := before ++ entry :: rest })
    (flag : entry.flag = true) :
    Reading left { state.sendReadReq entry with
      retset := before ++ { entry with flag := false } :: rest } := by
  have there : entry ∈ before ++ entry :: rest := List.mem_append_right _ List.mem_cons_self
  have new : entry.id ∉ state.locked := (reading.flagged entry there).mp flag
  have listed : entry.id ∈ state.visited ∧ entry.id ∉ left := reading.listed entry there
  have same : ({ entry with flag := false } : PipeEntry Distance).id = entry.id := rfl
  refine ⟨?_, ?_, ?_, reading.fresh, fun nbr member => ?_, fun other member => ?_, ?_,
    fun other member => ?_, fun other member => ?_, reading.expandedOnce, reading.expandedRead,
    reading.read, fun first io later queue => ?_⟩
  · show state.locked ++ [entry.id] = state.unlocked ++
      (state.onFlightIos ++
        [(⟨entry.id, entry.distance, state.sectorIdx⟩ : PipeIo Distance)]).map PipeIo.id
    have locked : state.locked = state.unlocked ++ state.onFlightIos.map PipeIo.id :=
      reading.locked
    rw [locked, List.map_append, List.append_assoc]
    rfl
  · exact nodup_snoc reading.once new
  · intro id member
    obtain inLocked | last := List.mem_append.mp member
    · exact reading.seen id inLocked
    · rw [List.mem_singleton.mp last]
      exact listed.1
  · refine ⟨(reading.toOffer nbr member).1, fun inLocked => ?_⟩
    obtain old | last := List.mem_append.mp inLocked
    · exact (reading.toOffer nbr member).2 old
    · exact listed.2 (List.mem_singleton.mp last ▸ member)
  · obtain rfl | ⟨old, -⟩ := Retset.mem_replace reading.apart member
    · exact listed
    · exact reading.listed other old
  · show (Retset.ids _ (before ++ { entry with flag := false } :: rest)).Nodup
    rw [Retset.ids_replace same]
    exact reading.apart
  · obtain rfl | ⟨old, different⟩ := Retset.mem_replace reading.apart member
    · refine ⟨fun raised => absurd raised Bool.false_ne_true, fun notLocked => ?_⟩
      exact absurd (List.mem_append_right _ (List.mem_singleton_self _)) notLocked
    · refine (reading.flagged other old).trans (not_congr ?_)
      refine ⟨List.mem_append_left _, fun either => ?_⟩
      exact (List.mem_append.mp either).resolve_right fun last =>
        different (List.mem_singleton.mp last)
  · obtain rfl | ⟨old, -⟩ := Retset.mem_replace reading.apart member
    · exact reading.opened entry there
    · exact reading.opened other old
  · show Awaited (before ++ { entry with flag := false } :: rest) (state.locked ++ [entry.id]) io
      later
    obtain ⟨rfl, rfl⟩ | ⟨between, rfl, old⟩ := split_concat queue
    · exact ⟨_, List.mem_append_right _ List.mem_cons_self, Or.inl rfl⟩
    · have awaited : Awaited (before ++ entry :: rest) state.locked io between :=
        reading.awaited first io between old
      obtain ⟨other, member, waits⟩ := awaited.replace same
      refine ⟨other, member, ?_⟩
      rw [List.map_append]
      obtain its | notLocked | behind := waits
      · exact Or.inl its
      · by_cases sent : other.id = entry.id
        · exact Or.inr (Or.inr (List.mem_append_right _ (sent ▸ List.mem_singleton_self _)))
        · refine Or.inr (Or.inl fun either => ?_)
          obtain inLocked | last := List.mem_append.mp either
          · exact notLocked inLocked
          · exact sent (List.mem_singleton.mp last)
      · exact Or.inr (Or.inr (List.mem_append_left _ behind))

omit [LinearOrder Distance] in
/-- An entry that is passed over has no flag. -/
theorem Reading.passed {before rest : List (PipeEntry Distance)} {entry : PipeEntry Distance}
    (reading : Reading left { state with retset := before ++ entry :: rest })
    (pass : entry.flag = false ∨ state.isRead entry.id = true) :
    ({ entry with flag := false } : PipeEntry Distance) = entry := by
  have there : entry ∈ before ++ entry :: rest := List.mem_append_right _ List.mem_cons_self
  have lowered : entry.flag = false := by
    obtain lowered | isRead := pass
    · exact lowered
    · refine Bool.eq_false_of_not_eq_true fun raised => ?_
      exact (reading.flagged entry there).mp raised
        (reading.unlocked_subset ((reading.read entry.id).mp isRead))
  cases entry with
  | mk toPoolEntry visited =>
    cases toPoolEntry with
    | mk toNeighbor flag =>
      obtain rfl : flag = false := lowered
      rfl

omit [LinearOrder Distance] in
theorem Reading.sendFrom {n : Nat} {rest : List (PipeEntry Distance)}
    (before : List (PipeEntry Distance))
    (reading : Reading left { state with retset := before ++ rest }) :
    Reading left { (sendFrom n rest state).2 with
      retset := before ++ (sendFrom n rest state).1 } := by
  induction rest generalizing before n state with
  | nil => exact reading
  | cons entry rest inductionHypothesis =>
    unfold PipeState.sendFrom
    split
    · exact reading
    · split
      · rename_i pass
        have kept := @inductionHypothesis state n (before ++ [entry]) (by
          rw [List.append_assoc]
          exact reading)
        rw [List.append_assoc] at kept
        rw [reading.passed pass]
        exact kept
      · rename_i unsent
        have flag := Bool.eq_true_of_not_eq_false (not_or.mp unsent).1
        have sent := @inductionHypothesis (state.sendReadReq entry) (n - 1)
          (before ++ [{ entry with flag := false }]) (by
            rw [List.append_assoc]
            exact reading.send flag)
        rw [List.append_assoc] at sent
        exact sent

omit [LinearOrder Distance] in
theorem Reading.sendBestReadReq (reading : Reading left state) (n : Nat) :
    Reading left (state.sendBestReadReq n) :=
  Reading.sendFrom [] reading

omit [LinearOrder Distance] in
theorem isSome_lookup_insertBuf (idBufMap : List (Nat × Nat)) (io : PipeIo Distance) (id : Nat) :
    ((insertBuf idBufMap io).lookup id).isSome = true ↔
      (idBufMap.lookup id).isSome = true ∨ id = io.id := by
  unfold insertBuf
  split
  · rename_i there
    exact ⟨Or.inl, fun either => either.elim (fun old => old) fun same => same ▸ there⟩
  · rw [List.lookup_cons]
    by_cases same : id = io.id
    · rw [beq_iff_eq.mpr same]
      exact ⟨fun _ => Or.inr same, fun _ => rfl⟩
    · rw [beq_false_of_ne same]
      exact ⟨Or.inl, fun either => either.resolve_right same⟩

omit [LinearOrder Distance] in
/-- The first read of the queue is handed on. -/
theorem Reading.pop {io : PipeIo Distance} {rest : List (PipeIo Distance)}
    (reading : Reading left { state with onFlightIos := io :: rest }) :
    Reading left { state with
      onFlightIos := rest
      idBufMap := insertBuf state.idBufMap io
      unlocked := state.unlocked ++ [io.id] } := by
  refine { reading with locked := ?_, expandedRead := ?_, read := ?_, awaited := ?_ }
  · have locked : state.locked = state.unlocked ++ (io :: rest).map PipeIo.id := reading.locked
    show state.locked = state.unlocked ++ [io.id] ++ rest.map PipeIo.id
    rw [locked, List.append_assoc]
    rfl
  · intro id member
    exact List.mem_append_left _ (reading.expandedRead id member)
  · intro id
    have before : (state.idBufMap.lookup id).isSome = true ↔ id ∈ state.unlocked :=
      reading.read id
    refine (isSome_lookup_insertBuf state.idBufMap io id).trans ?_
    rw [before, List.mem_append, List.mem_singleton]
  · intro before other later queue
    have longer : io :: rest = (io :: before) ++ other :: later := by
      rw [List.cons_append]
      exact congrArg (io :: ·) queue
    exact reading.awaited _ other later longer

omit [LinearOrder Distance] in
/-- The first reads of the queue are handed on. -/
theorem Reading.popAll {done rest : List (PipeIo Distance)}
    (reading : Reading left { state with onFlightIos := done ++ rest }) :
    Reading left { state with
      onFlightIos := rest
      idBufMap := done.foldl insertBuf state.idBufMap
      unlocked := state.unlocked ++ done.map PipeIo.id } := by
  induction done generalizing state with
  | nil =>
    rw [List.map_nil, List.append_nil]
    exact reading
  | cons io done inductionHypothesis =>
    have popped := @inductionHypothesis { state with
      idBufMap := insertBuf state.idBufMap io
      unlocked := state.unlocked ++ [io.id] } reading.pop
    dsimp only at popped
    rw [List.append_assoc] at popped
    exact popped

theorem Reading.pollAll (reading : Reading left state) : Reading left state.pollAll.1 := by
  refine @Reading.popAll _ _ state _ _ ?_
  rw [List.takeWhile_append_dropWhile]
  exact reading

omit [LinearOrder Distance] in
theorem Reading.readerPoll (reading : Reading left state) (completes : List Nat) :
    Reading left (state.readerPoll completes) :=
  { reading with }

omit [LinearOrder Distance] in
theorem Reading.tune (reading : Reading left state) (nIn nOut : Nat) :
    Reading left (query.tune nIn nOut state) := by
  unfold PipeQuery.tune
  split
  · exact { reading with }
  · exact reading

/-- Before the expansion of a node. -/
theorem Reading.poll (reading : Reading left state) (completes : List Nat) :
    Reading left (query.poll completes state) := by
  have polled : Reading left (query.tune _ _ (state.readerPoll completes).pollAll.1) :=
    ((reading.readerPoll completes).pollAll).tune
      (state.readerPoll completes).pollAll.2.1 (state.readerPoll completes).pollAll.2.2
  unfold PipeQuery.poll
  dsimp only
  split
  · exact polled.sendBestReadReq 1
  · exact polled

/-! ### The expansion of a node -/

omit [LinearOrder Distance] in
/-- The entry that is taken, by the list. -/
theorem takeBest_eq_some {isRead : Nat → Bool} {retset marked : List (PipeEntry Distance)}
    {id : Nat} (taken : takeBest isRead retset = some (id, marked)) :
    ∃ before entry rest, retset = before ++ entry :: rest ∧
      marked = before ++ { entry with flag := false, visited := true } :: rest ∧
        entry.id = id ∧ entry.visited = false ∧ isRead id = true ∧
          ∀ other ∈ before, other.visited = false → isRead other.id = false := by
  induction retset generalizing marked with
  | nil => exact absurd taken nofun
  | cons entry retset inductionHypothesis =>
    unfold takeBest at taken
    split at taken
    · rename_i waits
      obtain ⟨rfl, rfl⟩ := Prod.mk.inj (Option.some.inj taken)
      exact ⟨[], entry, retset, rfl, rfl, rfl, waits.1, waits.2, nofun⟩
    · rename_i passed
      obtain ⟨⟨other, rest⟩, found, same⟩ := Option.map_eq_some_iff.mp taken
      obtain ⟨rfl, rfl⟩ := Prod.mk.inj same
      obtain ⟨before, best, behind, rfl, rfl, its, closed, isRead, first⟩ :=
        inductionHypothesis found
      refine ⟨entry :: before, best, behind, rfl, rfl, its, closed, isRead, ?_⟩
      intro other member closed
      obtain rfl | inBefore := List.mem_cons.mp member
      · exact Bool.eq_false_of_not_eq_true fun read => passed ⟨closed, read⟩
      · exact first other inBefore closed

omit [LinearOrder Distance] in
theorem takeBest_eq_none {isRead : Nat → Bool} {retset : List (PipeEntry Distance)}
    (none : takeBest isRead retset = none) :
    ∀ entry ∈ retset, entry.visited = false → isRead entry.id = false := by
  induction retset with
  | nil => exact nofun
  | cons entry retset inductionHypothesis =>
    unfold takeBest at none
    split at none
    · exact absurd none nofun
    · rename_i passed
      intro other member closed
      obtain rfl | inRest := List.mem_cons.mp member
      · exact Bool.eq_false_of_not_eq_true fun read => passed ⟨closed, read⟩
      · exact inductionHypothesis (Option.map_eq_none_iff.mp none) other inRest closed

omit [LinearOrder Distance] in
/-- A node is expanded. -/
theorem Reading.mark {before rest : List (PipeEntry Distance)} {entry : PipeEntry Distance}
    (reading : Reading left { state with retset := before ++ entry :: rest })
    (closed : entry.visited = false) (isRead : state.isRead entry.id = true)
    (exactDist : Distance) :
    Reading left { state with
      retset := before ++ { entry with flag := false, visited := true } :: rest
      fullRetset := state.fullRetset ++ [⟨entry.id, exactDist⟩] } := by
  have there : entry ∈ before ++ entry :: rest := List.mem_append_right _ List.mem_cons_self
  have unlocked : entry.id ∈ state.unlocked := (reading.read entry.id).mp isRead
  have locked : entry.id ∈ state.locked := reading.unlocked_subset unlocked
  have new : entry.id ∉ state.expanded := by
    intro old
    have opened : entry.visited = true := (reading.opened entry there).mpr old
    exact Bool.false_ne_true (closed.symm.trans opened)
  have expanded : ({ state with
      retset := before ++ { entry with flag := false, visited := true } :: rest
      fullRetset := state.fullRetset ++ [⟨entry.id, exactDist⟩] } : PipeState Distance).expanded =
        state.expanded ++ [entry.id] := List.map_append
  have same : ({ entry with flag := false, visited := true } : PipeEntry Distance).id =
    entry.id := rfl
  refine
    { reading with
      listed := ?_
      apart := ?_
      flagged := ?_
      opened := ?_
      expandedOnce := ?_
      expandedRead := ?_
      awaited := ?_ }
  · intro other member
    obtain rfl | ⟨old, -⟩ := Retset.mem_replace reading.apart member
    · exact reading.listed entry there
    · exact reading.listed other old
  · show (Retset.ids _ (before ++ { entry with flag := false, visited := true } :: rest)).Nodup
    rw [Retset.ids_replace same]
    exact reading.apart
  · intro other member
    obtain rfl | ⟨old, -⟩ := Retset.mem_replace reading.apart member
    · exact ⟨fun raised => absurd raised Bool.false_ne_true, fun absent => absurd locked absent⟩
    · exact reading.flagged other old
  · intro other member
    rw [expanded]
    obtain rfl | ⟨old, different⟩ := Retset.mem_replace reading.apart member
    · exact ⟨fun _ => List.mem_append_right _ (List.mem_singleton_self _), fun _ => rfl⟩
    · refine (reading.opened other old).trans ⟨List.mem_append_left _, fun either => ?_⟩
      exact (List.mem_append.mp either).resolve_right fun last =>
        different (List.mem_singleton.mp last)
  · rw [expanded]
    exact nodup_snoc reading.expandedOnce new
  · rw [expanded]
    intro id member
    obtain old | last := List.mem_append.mp member
    · exact reading.expandedRead id old
    · rw [List.mem_singleton.mp last]
      exact unlocked
  · intro first io later queue
    have awaited : Awaited (before ++ entry :: rest) state.locked io later :=
      reading.awaited first io later queue
    exact awaited.replace same

end PipeQuery

end OdinVector

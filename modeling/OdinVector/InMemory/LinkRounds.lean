/-
This file models the threads that link points of the in-memory `Index`: the iterations of
`link`, or calls of `insert_point` that do not grow the index. A thread searches for its node,
prunes what it expanded, gives the node its list, and puts the node into the lists of its
neighbours. What is done under one lock is one step.

`inter_insert` copies a list that is full, prunes the copy without a lock, and writes it back.
`insert_point` clears the list of its location without a lock.
-/

import Mathlib.Logic.Function.Basic
import OdinVector.InMemory.MemorySearch
import OdinVector.InMemory.PruneLists
import OdinVector.Transition

namespace OdinVector

open Transition

variable {Distance : Type} [LinearOrder Distance]

/-- What the threads do not change. -/
structure LinkSetting (Distance : Type) [LinearOrder Distance] where
  params : LinkParams Distance
  /-- `_distance->compare` of the vectors at two locations. -/
  distance : Nat → Nat → Distance
  /-- `_nd`. -/
  nd : Nat
  /-- `_max_points`. -/
  maxPoints : Nat
  /-- `_num_frozen_pts`. -/
  numFrozenPts : Nat
  /-- `calculate_entry_point()`. -/
  entryPoint : Nat
  loaded : nd ≤ maxPoints
  frozen_le : numFrozenPts ≤ 1
  entryPoint_lt : 0 < nd → entryPoint < nd

/-- Which function the threads are in. -/
inductive LinkCaller
  | link
  | insertPoint
  deriving DecidableEq

/-- Where the thread of a node is. -/
inductive LinkWorker (Distance : Type)
  | waiting
  /-- In `get_expanded_nodes`, or after it. -/
  | searching (search : MemorySearch Distance)
  /-- In `insert_point` after the list was cleared. -/
  | cleared (prunedList : List Nat)
  /-- In `inter_insert` with the nodes that are left. -/
  | linking (srcPool : List Nat)
  /-- In `inter_insert` with a copy of the list of `des`. -/
  | writing (des : Nat) (copyOfNeighbors srcPool : List Nat)

/-- Whether `inter_insert` has gone over all its nodes. -/
def LinkWorker.ended : LinkWorker Distance → Bool
  | .linking [] => true
  | _ => false

structure LinkState (Distance : Type) where
  /-- `_final_graph`. -/
  lists : Nat → List Nat
  workers : Nat → LinkWorker Distance
  /-- Whether a thread has called `crash()`. -/
  crashed : Bool

inductive LinkAction
  | start (node : Nat)
  /-- A round of `iterate_to_fixed_point`. -/
  | round (node : Nat)
  /-- The assignment of the node's own list in `link`. -/
  | assign (node : Nat)
  /-- `clear` of the node's own list in `insert_point`. -/
  | clear (node : Nat)
  /-- The loop that fills the node's own list in `insert_point`. -/
  | fill (node : Nat)
  /-- The first section of `inter_insert` with the lock of `des`. -/
  | interInsert (node : Nat)
  /-- The second section of `inter_insert` with the lock of `des`. -/
  | writeBack (node : Nat)
  deriving DecidableEq

namespace LinkState

/-- A thread goes on. -/
def setWorker (state : LinkState Distance) (node : Nat) (worker : LinkWorker Distance) :
    LinkState Distance :=
  { state with workers := Function.update state.workers node worker }

/-- A list is written. -/
def setList (state : LinkState Distance) (node : Nat) (list : List Nat) : LinkState Distance :=
  { state with lists := Function.update state.lists node list }

/-- Every iteration has ended. -/
def Complete (state : LinkState Distance) (setting : LinkSetting Distance) : Prop :=
  ∀ node < setting.nd + setting.numFrozenPts, (state.workers node).ended = true

end LinkState

namespace LinkSetting

variable (setting : LinkSetting Distance)

/-- `_ep`. -/
def ep : Nat := if 0 < setting.numFrozenPts then setting.maxPoints else setting.entryPoint

/-- `n_vecs_to_visit`. -/
def nVecsToVisit : Nat := setting.nd + setting.numFrozenPts

/-- A location of a loaded point or of the frozen point. -/
def IsPoint (location : Nat) : Prop :=
  location < setting.nd ∨ 0 < setting.numFrozenPts ∧ location = setting.maxPoints

/-- The pool of a node: what its search expanded, without the node itself. -/
def ownPool (node : Nat) (search : MemorySearch Distance) : List (Neighbor Distance) :=
  search.expanded.filter fun neighbor => neighbor.id ≠ node

/-- `dummy_pool`: the entries of a list of `des`, each one once. -/
def dummyPool (des : Nat) (nbrs : List Nat) : List (Neighbor Distance) :=
  (nbrs.eraseDups.filter (· ≠ des)).map fun curNbr => ⟨curNbr, setting.distance des curNbr⟩

/-- A round of the search for a node. -/
def searchRound (state : LinkState Distance) (node : Nat) (search : MemorySearch Distance) :
    Option (MemorySearch Distance) :=
  search.round (setting.distance node) setting.params.lSize state.lists

/-- A step of the thread of a node. -/
def act (caller : LinkCaller) (state : LinkState Distance) :
    LinkAction → Option (LinkState Distance)
  | .start node =>
    match state.workers node with
    | .waiting =>
      if caller = .insertPoint ∨ node < setting.nVecsToVisit then
        some (state.setWorker node (.searching
          (.start (setting.distance node) setting.params.lSize [setting.ep])))
      else none
    | _ => none
  | .round node =>
    match state.workers node with
    | .searching search =>
      (setting.searchRound state node search).map fun next => state.setWorker node (.searching next)
    | _ => none
  | .assign node =>
    match caller, state.workers node with
    | .link, .searching search =>
      if search.best.length ≤ search.k then
        match Index.pruneNeighbors setting.params setting.distance node (ownPool node search) with
        | none => some { state with crashed := true }
        | some prunedList => some ((state.setList node prunedList).setWorker node (.linking prunedList))
      else none
    | _, _ => none
  | .clear node =>
    match caller, state.workers node with
    | .insertPoint, .searching search =>
      if search.best.length ≤ search.k then
        match Index.pruneNeighbors setting.params setting.distance node (ownPool node search) with
        | none => some { state with crashed := true }
        | some prunedList => some ((state.setList node []).setWorker node (.cleared prunedList))
      else none
    | _, _ => none
  | .fill node =>
    match state.workers node with
    | .cleared prunedList =>
      some ((state.setList node (state.lists node ++ prunedList)).setWorker node
        (.linking prunedList))
    | _ => none
  | .interInsert node =>
    match state.workers node with
    | .linking (des :: srcPool) =>
      if node ∈ state.lists des then some (state.setWorker node (.linking srcPool))
      else if (state.lists des).length < setting.params.slack then
        some ((state.setList des (state.lists des ++ [node])).setWorker node (.linking srcPool))
      else some (state.setWorker node (.writing des (state.lists des) srcPool))
    | _ => none
  | .writeBack node =>
    match state.workers node with
    | .writing des copyOfNeighbors srcPool =>
      match Index.pruneNeighbors setting.params setting.distance des
          (setting.dummyPool des (copyOfNeighbors ++ [node])) with
      | none => some { state with crashed := true }
      | some newOutNeighbors =>
        some ((state.setList des newOutNeighbors).setWorker node (.linking srcPool))
    | _ => none

/-- A step of a process that has not crashed. -/
def step (caller : LinkCaller) (state : LinkState Distance) (action : LinkAction) :
    Option (LinkState Distance) :=
  if state.crashed then none else setting.act caller state action

/-- The last loop of `link` for a node: a list that is too long is pruned. -/
def cleanUp (lists : Nat → List Nat) (node : Nat) : Option (List Nat) :=
  if node < setting.nVecsToVisit ∧ setting.params.range < (lists node).length then
    Index.pruneNeighbors setting.params setting.distance node (setting.dummyPool node (lists node))
  else some (lists node)

/-- The iterations of `link` on a new index. -/
def linkSystem : System (LinkState Distance) LinkAction where
  initial state := (∀ node, state.lists node = []) ∧ (∀ node, state.workers node = .waiting) ∧
    state.crashed = false
  step := setting.step .link

/-- Calls of `insert_point` on an index in use. -/
def insertSystem : System (LinkState Distance) LinkAction where
  initial state := (∀ node, state.workers node = .waiting) ∧ state.crashed = false
  step := setting.step .insertPoint

/-! ### What a step does -/

/-- The steps, one by one. -/
inductive Takes (caller : LinkCaller) (state : LinkState Distance) :
    LinkAction → LinkState Distance → Prop
  | start {node : Nat} (inside : caller = .link → node < setting.nVecsToVisit) :
      Takes caller state (.start node) (state.setWorker node (.searching
        (.start (setting.distance node) setting.params.lSize [setting.ep])))
  | round {node : Nat} {search next : MemorySearch Distance}
      (here : state.workers node = .searching search)
      (taken : setting.searchRound state node search = some next) :
      Takes caller state (.round node) (state.setWorker node (.searching next))
  | assign {node : Nat} {search : MemorySearch Distance} {prunedList : List Nat}
      (link : caller = .link) (here : state.workers node = .searching search)
      (ended : search.best.length ≤ search.k)
      (prunes : Index.pruneNeighbors setting.params setting.distance node (ownPool node search) =
        some prunedList) :
      Takes caller state (.assign node)
        ((state.setList node prunedList).setWorker node (.linking prunedList))
  | clear {node : Nat} {search : MemorySearch Distance} {prunedList : List Nat}
      (insertPoint : caller = .insertPoint) (here : state.workers node = .searching search)
      (ended : search.best.length ≤ search.k)
      (prunes : Index.pruneNeighbors setting.params setting.distance node (ownPool node search) =
        some prunedList) :
      Takes caller state (.clear node)
        ((state.setList node []).setWorker node (.cleared prunedList))
  | noPool {node : Nat} {action : LinkAction} {search : MemorySearch Distance}
      (here : state.workers node = .searching search) (ended : search.best.length ≤ search.k)
      (own : action = .assign node ∨ action = .clear node)
      (prunes : Index.pruneNeighbors setting.params setting.distance node (ownPool node search) =
        none) :
      Takes caller state action { state with crashed := true }
  | fill {node : Nat} {prunedList : List Nat} (here : state.workers node = .cleared prunedList) :
      Takes caller state (.fill node)
        ((state.setList node (state.lists node ++ prunedList)).setWorker node
          (.linking prunedList))
  | known {node des : Nat} {srcPool : List Nat}
      (here : state.workers node = .linking (des :: srcPool)) (member : node ∈ state.lists des) :
      Takes caller state (.interInsert node) (state.setWorker node (.linking srcPool))
  | added {node des : Nat} {srcPool : List Nat}
      (here : state.workers node = .linking (des :: srcPool)) (fresh : node ∉ state.lists des) :
      Takes caller state (.interInsert node)
        ((state.setList des (state.lists des ++ [node])).setWorker node (.linking srcPool))
  | copied {node des : Nat} {srcPool : List Nat}
      (here : state.workers node = .linking (des :: srcPool)) (fresh : node ∉ state.lists des) :
      Takes caller state (.interInsert node)
        (state.setWorker node (.writing des (state.lists des) srcPool))
  | written {node des : Nat} {copyOfNeighbors srcPool newOutNeighbors : List Nat}
      (here : state.workers node = .writing des copyOfNeighbors srcPool)
      (prunes : Index.pruneNeighbors setting.params setting.distance des
        (setting.dummyPool des (copyOfNeighbors ++ [node])) = some newOutNeighbors) :
      Takes caller state (.writeBack node)
        ((state.setList des newOutNeighbors).setWorker node (.linking srcPool))
  | noCopy {node des : Nat} {copyOfNeighbors srcPool : List Nat}
      (here : state.workers node = .writing des copyOfNeighbors srcPool)
      (prunes : Index.pruneNeighbors setting.params setting.distance des
        (setting.dummyPool des (copyOfNeighbors ++ [node])) = none) :
      Takes caller state (.writeBack node) { state with crashed := true }

variable {setting}

theorem step_takes {caller : LinkCaller} {state next : LinkState Distance} {action : LinkAction}
    (taken : setting.step caller state action = some next) :
    setting.Takes caller state action next := by
  replace taken : setting.act caller state action = some next :=
    (Option.ite_none_left_eq_some.mp taken).2
  unfold act at taken
  cases action with
  | start node =>
    dsimp only at taken
    split at taken
    · obtain ⟨inside, same⟩ := Option.ite_none_right_eq_some.mp taken
      obtain rfl := Option.some.inj same
      refine .start fun link => inside.resolve_left fun insertPoint => ?_
      rw [link] at insertPoint
      cases insertPoint
    · cases taken
  | round node =>
    dsimp only at taken
    split at taken
    · rename_i search here
      obtain ⟨after, round, rfl⟩ := Option.map_eq_some_iff.mp taken
      exact .round here round
    · cases taken
  | assign node =>
    dsimp only at taken
    split at taken
    · rename_i search here
      obtain ⟨ended, same⟩ := Option.ite_none_right_eq_some.mp taken
      split at same
      · rename_i prunes
        obtain rfl := Option.some.inj same
        exact .noPool here ended (.inl rfl) prunes
      · rename_i prunedList prunes
        obtain rfl := Option.some.inj same
        exact .assign rfl here ended prunes
    · cases taken
  | clear node =>
    dsimp only at taken
    split at taken
    · rename_i search here
      obtain ⟨ended, same⟩ := Option.ite_none_right_eq_some.mp taken
      split at same
      · rename_i prunes
        obtain rfl := Option.some.inj same
        exact .noPool here ended (.inr rfl) prunes
      · rename_i prunedList prunes
        obtain rfl := Option.some.inj same
        exact .clear rfl here ended prunes
    · cases taken
  | fill node =>
    dsimp only at taken
    split at taken
    · rename_i prunedList here
      obtain rfl := Option.some.inj taken
      exact .fill here
    · cases taken
  | interInsert node =>
    dsimp only at taken
    split at taken
    · rename_i des srcPool here
      split at taken
      · rename_i member
        obtain rfl := Option.some.inj taken
        exact .known here member
      · rename_i fresh
        split at taken
        · obtain rfl := Option.some.inj taken
          exact .added here fresh
        · obtain rfl := Option.some.inj taken
          exact .copied here fresh
    · cases taken
  | writeBack node =>
    dsimp only at taken
    split at taken
    · rename_i des copyOfNeighbors srcPool here
      split at taken
      · rename_i prunes
        obtain rfl := Option.some.inj taken
        exact .noCopy here prunes
      · rename_i newOutNeighbors prunes
        obtain rfl := Option.some.inj taken
        exact .written here prunes
    · cases taken

end LinkSetting

/-! ### Points on a line -/

/-- Short lists, with distances that are rounded down. -/
def lineParams : LinkParams Nat where
  range := 4
  maxc := 4
  alpha := 1
  alphaRounds := [1]
  alphaAboveOne := false
  initialFactor := 0
  maxFactor := 2
  occlude factor distance djk := max factor (distance / djk)
  lSize := 4
  saturateGraph := false
  slack := 5
  rangePos := Nat.succ_pos _
  maxcPos := Nat.succ_pos _
  lSizePos := Nat.succ_pos _
  rounds := List.cons_ne_nil _ _
  rounds_le := by decide
  initial_le := by decide
  alpha_lt := by decide

/-- A static index with the point in the middle as its medoid. -/
def staticLine (nd : Nat) : LinkSetting Nat where
  params := lineParams
  distance node other := (node - other) + (other - node)
  nd := nd
  maxPoints := nd
  numFrozenPts := 0
  entryPoint := (nd - 1) / 2
  loaded := le_rfl
  frozen_le := Nat.zero_le 1
  entryPoint_lt some := by omega

/-- A dynamic index with room for more points. -/
def dynamicLine (nd room : Nat) : LinkSetting Nat where
  params := lineParams
  distance node other := (node - other) + (other - node)
  nd := nd
  maxPoints := nd + room
  numFrozenPts := 1
  entryPoint := (nd - 1) / 2
  loaded := Nat.le_add_right nd room
  frozen_le := le_rfl
  entryPoint_lt some := by omega

/-- Before any thread has begun. -/
def noLinks : LinkState Nat where
  lists _ := []
  workers _ := .waiting
  crashed := false

theorem initial_noLinks (setting : LinkSetting Nat) : setting.linkSystem.initial noLinks :=
  ⟨fun _ => rfl, fun _ => rfl, rfl⟩

end OdinVector

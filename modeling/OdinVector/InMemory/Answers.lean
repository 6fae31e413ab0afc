/-
This file models what the searches of the in-memory `Index` return. All of them go over
`best_L_nodes`, which has one entry more than the list of the search, and what the search has
not filled has the id 0. They differ in what they leave out, and in where they write.
-/

import OdinVector.InMemory.RoundTrip
import OdinVector.InMemory.SearchLoop

namespace OdinVector

open MemorySearch

variable {Distance Component Tag : Type} [LinearOrder Distance]

/-- A returned tag, and the entry that it comes from. -/
structure TaggedEntry (Distance Tag : Type) where
  neighbor : Neighbor Distance
  tag : Tag

namespace Index

/-- `best_L_nodes` after a search. Behind a full list is what was pushed out of it last, or what
was there before. -/
def bestLNodes (lSize : Nat) (maxDistance : Distance) (behind : Neighbor Distance)
    (best : List (PoolEntry Distance)) : List (Neighbor Distance) :=
  best.map PoolEntry.toNeighbor ++
    if best.length < lSize then List.replicate (lSize + 1 - best.length) ⟨0, maxDistance⟩
    else [behind]

/-- The loop of the three overloads of `search`, with what each takes of an entry. -/
def fill {Out : Type} (K : Nat) (choose : Neighbor Distance → Option Out) :
    List (Neighbor Distance) → List Out → List Out
  | [], found => found
  | iter :: rest, found =>
    let found := match choose iter with
      | some out => found ++ [out]
      | none => found
    if found.length = K then found else fill K choose rest found

variable (index : Index Component Tag)

/-- `search` for `best_K_tags`. -/
def searchTags (K : Nat) (nodes : List (Neighbor Distance)) : List (TaggedEntry Distance Tag) :=
  fill K (fun iter => (index.locationToTag iter.id).map fun tag => ⟨iter, tag⟩) nodes []

/-- `search` for `indices`. -/
def searchIndices (K : Nat) (nodes : List (Neighbor Distance)) : List (Neighbor Distance) :=
  fill K (fun it => if it.id < index.maxPoints then some it else none) nodes []

/-- `search` from `init_ids`. -/
def searchFrom (K : Nat) (nodes : List (Neighbor Distance)) : List (Neighbor Distance) :=
  fill K some nodes []

/-- The ids that `search` from `init_ids` starts with. -/
def startIds (initIds : List Nat) : List Nat := if initIds = [] then [index.ep] else initIds

/-- The loop of `search_with_tags`, from `i` on: the positions of `res_vectors` and the tags. -/
def fillTags (K : Nat) : Nat → List (Neighbor Distance) →
    List (Nat × TaggedEntry Distance Tag) → List (Nat × TaggedEntry Distance Tag)
  | _, [], found => found
  | i, node :: rest, found =>
    match index.locationToTag node.id with
    | some tag =>
      let found := found ++ [(i, ⟨node, tag⟩)]
      if found.length = K then found else fillTags K (i + 1) rest found
    | none => fillTags K (i + 1) rest found

/-- `search_with_tags`. -/
def searchWithTags (K lSize : Nat) (nodes : List (Neighbor Distance)) :
    List (Nat × TaggedEntry Distance Tag) :=
  index.fillTags K 0 (index.searchIndices lSize nodes) []

/-- The location whose vector `search_with_tags` writes to a position of `res_vectors`. -/
def resVector (found : List (Nat × TaggedEntry Distance Tag)) (pos : Nat) : Option Nat :=
  (found.find? fun entry => entry.1 = pos).map fun entry => entry.2.neighbor.id

/-- `search_with_tags_fast`: `operator[]` gives a location without a tag the default one. -/
def searchWithTagsFast (lSize : Nat) (defaultTag : Tag) (nodes : List (Neighbor Distance)) :
    List (TaggedEntry Distance Tag) :=
  (nodes.take lSize).map fun node => ⟨node, (index.locationToTag node.id).getD defaultTag⟩

/-- The location of the frozen point. -/
def Frozen (location : Nat) : Prop := 0 < index.numFrozenPts ∧ location = index.maxPoints

/-- Entries of different points that the lists lead to, with their distances, and none of the
frozen point. -/
structure Real (distance : Nat → Distance) (starts : List Nat) (found : List (Neighbor Distance)) :
    Prop where
  nodup : (found.map Neighbor.id).Nodup
  reached : ∀ node ∈ found, Reaches index.finalGraph starts node.id
  points : ∀ node ∈ found, ¬ index.Frozen node.id
  measured : ∀ node ∈ found, node.distance = distance node.id

/-- Such entries with the tags of their locations. -/
structure RealTags (distance : Nat → Distance) (found : List (TaggedEntry Distance Tag)) :
    Prop where
  real : index.Real distance [index.ep] (found.map TaggedEntry.neighbor)
  tagged : ∀ entry ∈ found, index.locationToTag entry.neighbor.id = some entry.tag

/-- What the six searches return, from `best_L_nodes` of a search from the entry point and of one
from `init_ids`. A search that does not return a count fills what it is given. -/
structure AnswersReal (distance : Nat → Distance) (K lSize : Nat) (initIds : List Nat)
    (defaultTag : Tag) (nodes own : List (Neighbor Distance)) : Prop where
  tags : index.RealTags distance (index.searchTags K nodes)
  indices : index.Real distance [index.ep] (index.searchIndices K nodes) ∧
    (index.searchIndices K nodes).length = K
  fromIds : index.Real distance (index.startIds initIds) (searchFrom K own) ∧
    (searchFrom K own).length = K
  withTags : index.RealTags distance ((index.searchWithTags K lSize nodes).map Prod.snd) ∧
    (index.searchWithTags K lSize nodes).length ≤ K
  vectors : ∀ pos entry, (index.searchWithTags K lSize nodes)[pos]? = some entry →
    resVector (index.searchWithTags K lSize nodes) pos = some entry.2.neighbor.id
  fast : index.RealTags distance (index.searchWithTagsFast lSize defaultTag nodes) ∧
    (index.searchWithTagsFast lSize defaultTag nodes).length = lSize

/-- The six searches end, and what they return is real. -/
def SearchesReal (distance : Nat → Distance) (K lSize : Nat) (initIds : List Nat)
    (defaultTag : Tag) (maxDistance : Distance) (behind ownBehind : Neighbor Distance) : Prop :=
  ∃ last own, EndsIn distance lSize index.finalGraph [index.ep] last ∧
    EndsIn distance lSize index.finalGraph (index.startIds initIds) own ∧
    index.AnswersReal distance K lSize initIds defaultTag
      (bestLNodes lSize maxDistance behind last.best)
      (bestLNodes lSize maxDistance ownBehind own.best)

/-- So many locations are linked to the first ones. -/
def AtLeast (starts : List Nat) (count : Nat) : Prop :=
  ∃ ids : List Nat, ids.Nodup ∧ ids.length = count ∧ ∀ id ∈ ids, Reaches index.finalGraph starts id

/-- Points are asked for and there are enough of them, and enough nearer ones are linked to each
location that must not be returned. -/
structure Answerable (distance : Nat → Distance) (K lSize : Nat) (initIds : List Nat) : Prop where
  positive : 0 < K
  many : index.AtLeast [index.ep] lSize
  untagged : ∀ id, Reaches index.finalGraph [index.ep] id → index.locationToTag id = none →
    NearerLinked distance index.finalGraph id lSize
  enough : index.AtLeast (index.startIds initIds) K
  frozen : ∀ id, Reaches index.finalGraph ((index.startIds initIds).eraseDups.take lSize) id →
    index.Frozen id → NearerLinked distance index.finalGraph id K

variable {index} {format : Binary.Format Component} {distance : Nat → Distance}
  {lSize K : Nat} {starts : List Nat}
variable {best : List (PoolEntry Distance)} {maxDistance : Distance} {behind : Neighbor Distance}

/-! ### The loops -/

omit [LinearOrder Distance] in
/-- The loop takes the next entries when it takes something of each. -/
theorem fill_eq {Out : Type} {choose : Neighbor Distance → Option Out}
    (take : Neighbor Distance → Out) :
    ∀ (nodes : List (Neighbor Distance)) (found : List Out) (left : Nat),
      found.length + (left + 1) = K → left + 1 ≤ nodes.length →
        (∀ node ∈ nodes.take (left + 1), choose node = some (take node)) →
          fill K choose nodes found = found ++ (nodes.take (left + 1)).map take
  | [], _, _, _, enough, _ => absurd enough (Nat.not_succ_le_zero _)
  | node :: rest, found, left, count, enough, takes => by
    have first : choose node = some (take node) := takes node (by
      rw [List.take_succ_cons]
      exact List.mem_cons_self)
    unfold fill
    rw [first, List.take_succ_cons]
    dsimp only
    rw [List.length_append, List.length_singleton]
    cases left with
    | zero =>
      rw [if_pos count, List.take_zero]
      rfl
    | succ left =>
      have length : (found ++ [take node]).length + (left + 1) = K := by
        rw [List.length_append, List.length_singleton]
        omega
      have later := fill_eq take rest (found ++ [take node]) left length
        (Nat.le_of_succ_le_succ enough) fun other member => takes other (by
          rw [List.take_succ_cons]
          exact List.mem_cons_of_mem _ member)
      rw [if_neg (by omega), later, List.append_assoc]
      rfl

omit [LinearOrder Distance] in
/-- The same of the loop of `search_with_tags`, which counts the entries from `i` on. -/
theorem fillTags_eq (tagOf : Nat → Tag) :
    ∀ (nodes : List (Neighbor Distance)) (i : Nat) (found : List (Nat × TaggedEntry Distance Tag))
      (left : Nat), found.length + (left + 1) = K → left + 1 ≤ nodes.length →
        (∀ node ∈ nodes.take (left + 1), index.locationToTag node.id = some (tagOf node.id)) →
          index.fillTags K i nodes found = found ++ ((nodes.take (left + 1)).zipIdx i).map
            fun entry => (entry.2, ⟨entry.1, tagOf entry.1.id⟩)
  | [], _, _, _, _, enough, _ => absurd enough (Nat.not_succ_le_zero _)
  | node :: rest, i, found, left, count, enough, tagged => by
    have first : index.locationToTag node.id = some (tagOf node.id) := tagged node (by
      rw [List.take_succ_cons]
      exact List.mem_cons_self)
    unfold fillTags
    rw [first, List.take_succ_cons]
    dsimp only
    rw [List.length_append, List.length_singleton]
    cases left with
    | zero =>
      rw [if_pos count, List.take_zero]
      rfl
    | succ left =>
      let more : List (Nat × TaggedEntry Distance Tag) := found ++ [(i, ⟨node, tagOf node.id⟩)]
      have length : more.length + (left + 1) = K := by
        rw [List.length_append, List.length_singleton]
        omega
      have later := fillTags_eq tagOf rest (i + 1) more left length (Nat.le_of_succ_le_succ enough)
        fun other member => tagged other (by
          rw [List.take_succ_cons]
          exact List.mem_cons_of_mem _ member)
      rw [if_neg (by omega)]
      refine later.trans ?_
      show found ++ [_] ++ _ = _
      rw [List.append_assoc]
      rfl

/-! ### Padding -/

omit [LinearOrder Distance] in
theorem length_bestLNodes (inside : best.length ≤ lSize) :
    (bestLNodes lSize maxDistance behind best).length = lSize + 1 := by
  unfold bestLNodes
  rw [List.length_append, List.length_map]
  split
  · rw [List.length_replicate]
    omega
  · rw [List.length_singleton]
    omega

omit [LinearOrder Distance] in
theorem take_bestLNodes {count : Nat} (inside : count ≤ best.length) :
    (bestLNodes lSize maxDistance behind best).take count =
      (best.take count).map PoolEntry.toNeighbor := by
  unfold bestLNodes
  rw [List.take_append_of_le_length (inside.trans_eq (List.length_map _).symm), List.map_take]

omit [LinearOrder Distance] in
/-- With fewer points than are returned, padding is returned. -/
theorem Real.le_length {count : Nat} (found : Found distance lSize index.finalGraph starts best)
    (inside : count ≤ lSize)
    (real : index.Real distance starts ((bestLNodes lSize maxDistance behind best).take count)) :
    count ≤ best.length := by
  by_contra! fewer
  have short : best.length < lSize := fewer.trans_le inside
  have split : (bestLNodes lSize maxDistance behind best).take count =
      best.map PoolEntry.toNeighbor ++
        List.replicate (count - best.length) (⟨0, maxDistance⟩ : Neighbor Distance) := by
    unfold bestLNodes
    rw [if_pos short, List.take_append,
      List.take_of_length_le ((List.length_map _).trans_le fewer.le), List.length_map,
      List.take_replicate, Nat.min_eq_left (by omega)]
  have padding : (⟨0, maxDistance⟩ : Neighbor Distance) ∈
      List.replicate (count - best.length) (⟨0, maxDistance⟩ : Neighbor Distance) :=
    List.mem_replicate.mpr ⟨by omega, rfl⟩
  have reached : Reaches index.finalGraph starts 0 := by
    have all := real.reached
    rw [split] at all
    exact all _ (List.mem_append_right _ padding)
  have nodup := real.nodup
  rw [split, List.map_append, List.map_map] at nodup
  exact (List.nodup_append.mp nodup).2.2 0 (found.all short 0 reached) 0
    (List.mem_map_of_mem padding) rfl

omit [LinearOrder Distance] in
/-- The entries of a list that holds so many. -/
theorem Real.of_found {count : Nat} (found : Found distance lSize index.finalGraph starts best)
    (inside : count ≤ best.length) (points : ∀ entry ∈ best.take count, ¬ index.Frozen entry.id) :
    index.Real distance starts ((bestLNodes lSize maxDistance behind best).take count) := by
  rw [take_bestLNodes inside]
  refine ⟨?_, fun node member => ?_, fun node member => ?_, fun node member => ?_⟩
  · rw [List.map_map]
    exact found.nodup.sublist ((List.take_sublist _ _).map _)
  · obtain ⟨entry, listed, rfl⟩ := List.mem_map.mp member
    exact found.reached entry (List.mem_of_mem_take listed)
  · obtain ⟨entry, listed, rfl⟩ := List.mem_map.mp member
    exact points entry listed
  · obtain ⟨entry, listed, rfl⟩ := List.mem_map.mp member
    exact found.measured entry (List.mem_of_mem_take listed)

omit [LinearOrder Distance] in
/-- A list holds so many if and only if there are so many. -/
theorem le_length_iff {count : Nat} (found : Found distance lSize index.finalGraph starts best)
    (inside : count ≤ lSize) : count ≤ best.length ↔ index.AtLeast starts count := by
  constructor
  · intro enough
    refine ⟨(best.take count).map fun entry => entry.id,
      found.nodup.sublist ((List.take_sublist _ _).map _), ?_, fun id member => ?_⟩
    · rw [List.length_map, List.length_take, Nat.min_eq_left enough]
    · obtain ⟨entry, listed, rfl⟩ := List.mem_map.mp member
      exact found.reached entry (List.mem_of_mem_take listed)
  · rintro ⟨ids, nodup, rfl, reached⟩
    by_contra! fewer
    have subset : ∀ id ∈ ids, id ∈ best.map fun entry => entry.id :=
      fun id member => found.all (fewer.trans_le inside) id (reached id member)
    have length := (List.subperm_of_subset nodup subset).length_le
    rw [List.length_map] at length
    exact absurd length (Nat.not_le.mpr fewer)

/-! ### The six searches -/

omit [LinearOrder Distance] in
theorem searchFrom_eq (some : 0 < K) (fits : K ≤ lSize) (inside : best.length ≤ lSize) :
    searchFrom K (bestLNodes lSize maxDistance behind best) =
      (bestLNodes lSize maxDistance behind best).take K := by
  obtain ⟨left, rfl⟩ := Nat.exists_eq_succ_of_ne_zero some.ne'
  have enough : left + 1 ≤ (bestLNodes lSize maxDistance behind best).length := by
    rw [length_bestLNodes inside]
    omega
  have taken := fill_eq (fun node => node) _ [] left (Nat.zero_add _) enough
    fun node _ => (rfl : Option.some node = Option.some node)
  rwa [List.map_id', List.nil_append] at taken

omit [LinearOrder Distance] in
theorem length_le_fill {Out : Type} (choose : Neighbor Distance → Option Out) (K : Nat) :
    ∀ (nodes : List (Neighbor Distance)) (found : List Out),
      found.length ≤ (fill K choose nodes found).length
  | [], found => le_rfl
  | node :: rest, found => by
    unfold fill
    dsimp only
    cases choose node with
    | some out =>
      have more : found.length ≤ (found ++ [out]).length := by
        rw [List.length_append]
        exact Nat.le_add_right _ _
      dsimp only
      split
      · exact more
      · exact more.trans (length_le_fill choose K rest _)
    | none =>
      dsimp only
      split
      · exact le_rfl
      · exact length_le_fill choose K rest found

omit [LinearOrder Distance] in
theorem bestLNodes_ne_nil : bestLNodes lSize maxDistance behind best ≠ [] := by
  unfold bestLNodes
  refine List.append_ne_nil_of_right_ne_nil _ ?_
  split
  · refine List.length_pos_iff.mp ?_
    rw [List.length_replicate]
    omega
  · exact List.cons_ne_nil _ _

omit [LinearOrder Distance] in
/-- `search` for no points returns one. -/
theorem searchFrom_zero_ne {nodes : List (Neighbor Distance)} (nonempty : nodes ≠ []) :
    (searchFrom 0 nodes).length ≠ 0 := by
  obtain ⟨first, rest, rfl⟩ := List.exists_cons_of_ne_nil nonempty
  have one : searchFrom 0 (first :: rest) = fill 0 Option.some rest [first] := by
    show (if [first].length = 0 then [first] else fill 0 Option.some rest [first]) = _
    exact if_neg Nat.one_ne_zero
  have more := length_le_fill Option.some 0 rest [first]
  rw [one]
  exact (Nat.lt_of_lt_of_le Nat.zero_lt_one more).ne'

omit [LinearOrder Distance] in
/-- `search` from `init_ids` returns points if and only if it finds as many, and the frozen point
is not one of the first. -/
theorem fromIds_iff (found : Found distance lSize index.finalGraph starts best)
    (fits : K ≤ lSize) :
    (index.Real distance starts (searchFrom K (bestLNodes lSize maxDistance behind best)) ∧
        (searchFrom K (bestLNodes lSize maxDistance behind best)).length = K) ↔
      0 < K ∧ index.AtLeast starts K ∧ ∀ entry ∈ best.take K, ¬ index.Frozen entry.id := by
  constructor
  · rintro ⟨real, length⟩
    have some : 0 < K := by
      by_contra! none
      obtain rfl := Nat.le_zero.mp none
      exact searchFrom_zero_ne bestLNodes_ne_nil length
    rw [searchFrom_eq some fits found.length] at real
    have enough := real.le_length found fits
    refine ⟨some, (le_length_iff found fits).mp enough, fun entry member => ?_⟩
    refine real.points entry.toNeighbor ?_
    rw [take_bestLNodes enough]
    exact List.mem_map_of_mem member
  · rintro ⟨some, enough, points⟩
    rw [searchFrom_eq some fits found.length]
    refine ⟨Real.of_found found ((le_length_iff found fits).mpr enough) points, ?_⟩
    rw [List.length_take, length_bestLNodes found.length]
    omega

/-- A location with a tag is not that of the frozen point. -/
theorem WellFormed.not_frozen (wellFormed : index.WellFormed format) {location : Nat} {tag : Tag}
    (tagged : index.locationToTag location = some tag) : ¬ index.Frozen location := by
  intro frozen
  have inside := wellFormed.tagged location tag tagged
  have bounded := wellFormed.bounded
  rw [frozen.2] at inside
  omega

section Tagged

variable {tagOf : Nat → Tag}

omit [LinearOrder Distance] in
/-- The tags of the first entries of a list whose locations all have one. -/
theorem realTags_take (wellFormed : index.WellFormed format)
    (found : Found distance lSize index.finalGraph [index.ep] best)
    (tagged : ∀ entry ∈ best, index.locationToTag entry.id = some (tagOf entry.id)) {count : Nat}
    (inside : count ≤ best.length) :
    index.RealTags distance (((bestLNodes lSize maxDistance behind best).take count).map
      fun node => ⟨node, tagOf node.id⟩) := by
  refine ⟨?_, fun entry member => ?_⟩
  · rw [List.map_map]
    show index.Real distance [index.ep] (((bestLNodes lSize maxDistance behind best).take count).map
      fun node => node)
    rw [List.map_id']
    exact Real.of_found found inside fun entry member =>
      wellFormed.not_frozen (tagged entry (List.mem_of_mem_take member))
  · obtain ⟨node, taken, rfl⟩ := List.mem_map.mp member
    rw [take_bestLNodes inside] at taken
    obtain ⟨entry, listed, rfl⟩ := List.mem_map.mp taken
    exact tagged entry (List.mem_of_mem_take listed)

omit [LinearOrder Distance] in
variable (maxDistance behind) in
/-- When as many tagged points are found as the list holds, the searches return the first ones. -/
theorem answers_of_tagged (wellFormed : index.WellFormed format) (positive : 0 < K)
    (fits : K ≤ lSize)
    (found : Found distance lSize index.finalGraph [index.ep] best) (full : lSize ≤ best.length)
    (tagged : ∀ entry ∈ best, index.locationToTag entry.id = some (tagOf entry.id)) :
    index.searchTags K (bestLNodes lSize maxDistance behind best) =
        ((bestLNodes lSize maxDistance behind best).take K).map
          (fun node => ⟨node, tagOf node.id⟩) ∧
      index.searchIndices K (bestLNodes lSize maxDistance behind best) =
        (bestLNodes lSize maxDistance behind best).take K ∧
      index.searchWithTags K lSize (bestLNodes lSize maxDistance behind best) =
        ((bestLNodes lSize maxDistance behind best).take K).zipIdx.map
          fun entry => (entry.2, ⟨entry.1, tagOf entry.1.id⟩) := by
  have length : (bestLNodes lSize maxDistance behind best).length = lSize + 1 :=
    length_bestLNodes found.length
  have listed : ∀ {count : Nat}, count ≤ lSize →
      ∀ node ∈ (bestLNodes lSize maxDistance behind best).take count,
        index.locationToTag node.id = some (tagOf node.id) := by
    intro count inside node member
    rw [take_bestLNodes (inside.trans full)] at member
    obtain ⟨entry, there, rfl⟩ := List.mem_map.mp member
    exact tagged entry (List.mem_of_mem_take there)
  have indices : ∀ count, 0 < count → count ≤ lSize →
      index.searchIndices count (bestLNodes lSize maxDistance behind best) =
        (bestLNodes lSize maxDistance behind best).take count := by
    intro count first inside
    obtain ⟨left, rfl⟩ := Nat.exists_eq_succ_of_ne_zero first.ne'
    have low : ∀ node ∈ (bestLNodes lSize maxDistance behind best).take (left + 1),
        (if node.id < index.maxPoints then some node else none) = some node := by
      intro node member
      have before := wellFormed.tagged node.id _ (listed inside node member)
      exact if_pos (before.trans_le wellFormed.bounded)
    have taken := fill_eq (fun node => node) (bestLNodes lSize maxDistance behind best) [] left
      (Nat.zero_add _) (by omega) low
    rwa [List.map_id', List.nil_append] at taken
  refine ⟨?_, indices K positive fits, ?_⟩
  · obtain ⟨left, rfl⟩ := Nat.exists_eq_succ_of_ne_zero positive.ne'
    have tags : ∀ node ∈ (bestLNodes lSize maxDistance behind best).take (left + 1),
        (index.locationToTag node.id).map (TaggedEntry.mk node) =
          some ⟨node, tagOf node.id⟩ := by
      intro node member
      rw [listed fits node member]
      rfl
    exact fill_eq _ _ [] left (Nat.zero_add _) (by omega) tags
  · obtain ⟨left, rfl⟩ := Nat.exists_eq_succ_of_ne_zero positive.ne'
    have enough : left + 1 ≤ ((bestLNodes lSize maxDistance behind best).take lSize).length := by
      rw [List.length_take, length]
      omega
    have first : ((bestLNodes lSize maxDistance behind best).take lSize).take (left + 1) =
        (bestLNodes lSize maxDistance behind best).take (left + 1) := by
      rw [List.take_take, Nat.min_eq_left fits]
    have taken := fillTags_eq tagOf _ 0 [] left (Nat.zero_add _) enough (first ▸ listed fits)
    unfold searchWithTags
    rw [indices lSize (positive.trans_le fits) le_rfl, taken, first, List.nil_append]

end Tagged

omit [LinearOrder Distance] in
theorem find?_zipIdx (nodes : List (Neighbor Distance)) (i pos : Nat) :
    (nodes.zipIdx i).find? (fun entry => entry.2 = i + pos) =
      nodes[pos]?.map fun node => (node, i + pos) := by
  induction nodes generalizing i pos with
  | nil => rfl
  | cons node rest inductionHypothesis =>
    rw [List.zipIdx_cons, List.find?_cons]
    cases pos with
    | zero =>
      rw [Nat.add_zero, decide_eq_true rfl]
      rfl
    | succ pos =>
      rw [decide_eq_false (by omega)]
      have later := inductionHypothesis (i + 1) pos
      rw [Nat.add_right_comm, Nat.add_assoc] at later
      exact later

omit [LinearOrder Distance] in
/-- The vectors of `search_with_tags` are those of its tags when no location is left out. -/
theorem resVector_zipIdx {nodes : List (Neighbor Distance)} (tagOf : Nat → Tag) {pos : Nat}
    {entry : Nat × TaggedEntry Distance Tag}
    (there : (nodes.zipIdx.map fun entry => (entry.2, (⟨entry.1, tagOf entry.1.id⟩ :
      TaggedEntry Distance Tag)))[pos]? = some entry) :
    resVector (nodes.zipIdx.map fun entry => (entry.2, ⟨entry.1, tagOf entry.1.id⟩)) pos =
      some entry.2.neighbor.id := by
  have found := find?_zipIdx nodes 0 pos
  rw [Nat.zero_add] at found
  rw [List.getElem?_map, List.getElem?_zipIdx, Nat.zero_add, Option.map_map] at there
  obtain ⟨node, here, rfl⟩ := Option.map_eq_some_iff.mp there
  unfold resVector
  rw [List.find?_map]
  show (((nodes.zipIdx).find? fun entry => entry.2 = pos).map _).map _ = _
  rw [found, here]
  rfl

/-! ### All searches -/

theorem WellFormed.lt_of_reaches (wellFormed : index.WellFormed format)
    (points : ∀ id ∈ starts, index.IsPoint id) {id : Nat}
    (reaches : Reaches index.finalGraph starts id) : id < index.maxPoints + 1 := by
  have point : index.IsPoint id := by
    induction reaches with
    | start member => exact points _ member
    | @link id nbr before linked inductionHypothesis =>
      exact (wellFormed.linked id inductionHypothesis nbr linked).1
  have bounded := wellFormed.bounded
  obtain inside | frozen := point
  · omega
  · rw [frozen.2]
    exact Nat.lt_succ_self _

/-- A search from points ends. -/
theorem WellFormed.exists_endsIn (wellFormed : index.WellFormed format)
    (distance : Nat → Distance) (lSize : Nat) (nonempty : starts ≠ [])
    (points : ∀ id ∈ starts, index.IsPoint id) :
    ∃ last, EndsIn distance lSize index.finalGraph starts last := by
  cases lSize with
  | zero => exact ⟨start distance 0 starts, 1, rfl⟩
  | succ lSize =>
    exact MemorySearch.exists_endsIn (Nat.succ_pos lSize) nonempty fun id reaches =>
      wellFormed.lt_of_reaches points reaches

omit [LinearOrder Distance] in
/-- Of a search that does not keep as many tagged points as the list holds,
`search_with_tags_fast` returns something else. -/
theorem RealTags.of_fast {defaultTag : Tag}
    (found : Found distance lSize index.finalGraph [index.ep] best)
    (fast : index.RealTags distance
      (index.searchWithTagsFast lSize defaultTag (bestLNodes lSize maxDistance behind best))) :
    lSize ≤ best.length ∧ ∀ entry ∈ best, index.locationToTag entry.id ≠ none := by
  have nodes : (index.searchWithTagsFast lSize defaultTag
      (bestLNodes lSize maxDistance behind best)).map TaggedEntry.neighbor =
        (bestLNodes lSize maxDistance behind best).take lSize := by
    unfold searchWithTagsFast
    rw [List.map_map]
    exact List.map_id' _
  have real := fast.real
  rw [nodes] at real
  have full := real.le_length found le_rfl
  refine ⟨full, fun entry member none => ?_⟩
  have listed : entry.toNeighbor ∈ (bestLNodes lSize maxDistance behind best).take lSize := by
    rw [take_bestLNodes full, List.take_of_length_le found.length]
    exact List.mem_map_of_mem member
  have tagged := fast.tagged _ (List.mem_map_of_mem listed)
  exact Option.some_ne_none _ (tagged.symm.trans none)

section Kept

variable {own : List (PoolEntry Distance)} {initIds : List Nat} {ownBehind : Neighbor Distance}
  {defaultTag : Tag}

omit [LinearOrder Distance] in
/-- The answers are real if and only if enough is kept, and nothing that must not be returned. -/
theorem answersReal_iff_kept (wellFormed : index.WellFormed format) (positive : 0 < K)
    (fits : K ≤ lSize) (found : Found distance lSize index.finalGraph [index.ep] best)
    (ownFound : Found distance lSize index.finalGraph (index.startIds initIds) own) :
    index.AnswersReal distance K lSize initIds defaultTag (bestLNodes lSize maxDistance behind best)
        (bestLNodes lSize maxDistance ownBehind own) ↔
      index.AtLeast [index.ep] lSize ∧ (∀ entry ∈ best, index.locationToTag entry.id ≠ none) ∧
        index.AtLeast (index.startIds initIds) K ∧
          ∀ entry ∈ own.take K, ¬ index.Frozen entry.id := by
  constructor
  · intro answers
    obtain ⟨full, tagged⟩ := answers.fast.1.of_fast found
    obtain ⟨_, enough, real⟩ := (fromIds_iff ownFound fits).mp answers.fromIds
    exact ⟨(le_length_iff found le_rfl).mp full, tagged, enough, real⟩
  · rintro ⟨many, tagged, kept⟩
    have full := (le_length_iff found le_rfl).mpr many
    let tagOf (location : Nat) : Tag := (index.locationToTag location).getD defaultTag
    have tags : ∀ entry ∈ best, index.locationToTag entry.id = some (tagOf entry.id) := by
      intro entry member
      obtain ⟨tag, has⟩ := Option.ne_none_iff_exists'.mp (tagged entry member)
      show index.locationToTag entry.id = some ((index.locationToTag entry.id).getD defaultTag)
      rw [has, Option.getD_some]
    have real : ∀ count ≤ lSize, index.RealTags distance
        (((bestLNodes lSize maxDistance behind best).take count).map
          fun node => ⟨node, tagOf node.id⟩) :=
      fun count inside => realTags_take wellFormed found tags (inside.trans full)
    have length : ∀ count ≤ lSize,
        ((bestLNodes lSize maxDistance behind best).take count).length = count := by
      intro count inside
      rw [List.length_take, length_bestLNodes found.length]
      omega
    obtain ⟨searchTags, searchIndices, searchWithTags⟩ :=
      answers_of_tagged maxDistance behind wellFormed positive fits found full tags
    have points : index.Real distance [index.ep]
        ((bestLNodes lSize maxDistance behind best).take K) :=
      Real.of_found found (fits.trans full) fun entry member =>
        wellFormed.not_frozen (tags entry (List.mem_of_mem_take member))
    refine ⟨?_, ?_, (fromIds_iff ownFound fits).mpr ⟨positive, kept⟩, ?_, ?_, ?_⟩
    · rw [searchTags]
      exact real K fits
    · rw [searchIndices]
      exact ⟨points, length K fits⟩
    · rw [searchWithTags, List.map_map, List.length_map, List.length_zipIdx]
      refine ⟨?_, (length K fits).le⟩
      have tagged := real K fits
      rw [← List.zipIdx_map_fst 0 ((bestLNodes lSize maxDistance behind best).take K),
        List.map_map] at tagged
      exact tagged
    · intro pos entry there
      rw [searchWithTags] at there ⊢
      exact resVector_zipIdx tagOf there
    · unfold searchWithTagsFast
      rw [List.length_map]
      exact ⟨real lSize le_rfl, length lSize le_rfl⟩

omit [LinearOrder Distance] in
/-- A search for no points returns one. -/
theorem AnswersReal.positive
    (answers : index.AnswersReal distance K lSize initIds defaultTag
      (bestLNodes lSize maxDistance behind best) (bestLNodes lSize maxDistance ownBehind own)) :
    0 < K := by
  refine Nat.pos_of_ne_zero fun none => ?_
  subst none
  exact searchFrom_zero_ne bestLNodes_ne_nil answers.fromIds.2

theorem startIds_ne_nil : index.startIds initIds ≠ [] := by
  unfold startIds
  split
  · exact List.cons_ne_nil _ _
  · rename_i nonempty
    exact nonempty

theorem isPoint_startIds (entry : index.IsPoint index.ep)
    (points : ∀ id ∈ initIds, index.IsPoint id) :
    ∀ id ∈ index.startIds initIds, index.IsPoint id := by
  unfold startIds
  split
  · intro id member
    rw [List.mem_singleton.mp member]
    exact entry
  · exact points

/-- What real answers say of what the two searches keep. -/
theorem SearchesReal.kept (wellFormed : index.WellFormed format) (fits : K ≤ lSize)
    (real : index.SearchesReal distance K lSize initIds defaultTag maxDistance behind ownBehind) :
    ∃ last own, Exhausted distance lSize index.finalGraph [index.ep] last ∧
      Exhausted distance lSize index.finalGraph (index.startIds initIds) own ∧ 0 < K ∧
        index.AtLeast [index.ep] lSize ∧ (∀ id ∈ last, index.locationToTag id ≠ none) ∧
          index.AtLeast (index.startIds initIds) K ∧ ∀ id ∈ own.take K, ¬ index.Frozen id := by
  obtain ⟨last, own, lastEnds, ownEnds, answers⟩ := real
  have positive := answers.positive
  have listed := positive.trans_le fits
  obtain ⟨many, tagged, enough, points⟩ := (answersReal_iff_kept wellFormed positive fits
    (lastEnds.found listed (List.cons_ne_nil _ _))
      (ownEnds.found listed startIds_ne_nil)).mp answers
  refine ⟨_, _, lastEnds.exhausted listed (List.cons_ne_nil _ _),
    ownEnds.exhausted listed startIds_ne_nil, positive, many, fun id member => ?_, enough,
    fun id member => ?_⟩
  · obtain ⟨entry, inList, rfl⟩ := List.mem_map.mp member
    exact tagged entry inList
  · rw [← List.map_take] at member
    obtain ⟨entry, inList, rfl⟩ := List.mem_map.mp member
    exact points entry inList

/-- When enough nearer locations are linked to what must not be returned, the answers are real. -/
theorem Answerable.searchesReal (wellFormed : index.WellFormed format)
    (entry : index.IsPoint index.ep) (points : ∀ id ∈ initIds, index.IsPoint id)
    (fits : K ≤ lSize) (answerable : index.Answerable distance K lSize initIds) :
    index.SearchesReal distance K lSize initIds defaultTag maxDistance behind ownBehind := by
  have listed := answerable.positive.trans_le fits
  obtain ⟨last, lastEnds⟩ := wellFormed.exists_endsIn distance lSize
    (List.cons_ne_nil index.ep []) fun id member => (List.mem_singleton.mp member).symm ▸ entry
  obtain ⟨own, ownEnds⟩ :=
    wellFormed.exists_endsIn distance lSize startIds_ne_nil (isPoint_startIds entry points)
  have exhausted := lastEnds.exhausted listed (List.cons_ne_nil _ _)
  have ownExhausted := ownEnds.exhausted listed startIds_ne_nil
  refine ⟨last, own, lastEnds, ownEnds, (answersReal_iff_kept wellFormed answerable.positive fits
    (lastEnds.found listed (List.cons_ne_nil _ _)) (ownEnds.found listed startIds_ne_nil)).mpr
      ⟨answerable.many, fun entry member untagged => ?_, answerable.enough,
        fun entry member frozen => ?_⟩⟩
  · have inside : entry.id ∈ last.best.map fun entry => entry.id := List.mem_map_of_mem member
    have nearer := answerable.untagged entry.id
      ((exhausted.reached entry.id inside).mono firsts_subset) untagged
    refine exhausted.notMem_take nearer ?_
    rwa [List.take_of_length_le exhausted.length]
  · have inside : entry.id ∈ own.best.map fun entry => entry.id :=
      List.mem_map_of_mem (List.mem_of_mem_take member)
    refine ownExhausted.notMem_take
      (answerable.frozen entry.id (ownExhausted.reached entry.id inside) frozen) ?_
    rw [← List.map_take]
    exact List.mem_map_of_mem member

/-- When the answers are real for all distances, no search leads to what must not be returned. -/
theorem answerable_of_searchesReal (wellFormed : index.WellFormed format) (fits : K ≤ lSize)
    {rank : Nat → Distance} (ranks : StrictMono rank)
    (real : ∀ distance : Nat → Distance,
      index.SearchesReal distance K lSize initIds defaultTag maxDistance behind ownBehind)
    (distance : Nat → Distance) : index.Answerable distance K lSize initIds := by
  obtain ⟨_, _, _, _, positive, many, _, enough, _⟩ := (real distance).kept wellFormed fits
  have listed := positive.trans_le fits
  refine ⟨positive, many, fun id reaches untagged => ?_, enough, fun id reaches frozen => ?_⟩
  · obtain ⟨first, isFirst, steps, linked⟩ := exists_linkedIn reaches
    obtain ⟨last, _, exhausted, _, _, _, tagged, _⟩ :=
      (real fun id' => rank (stepsTo index.finalGraph id (steps + 1) id')).kept wellFormed fits
    obtain ⟨left, rfl⟩ := Nat.exists_eq_succ_of_ne_zero listed.ne'
    have head := exhausted.head_of_steps ranks linked (by
      rw [List.eraseDups_cons, List.take_succ_cons, List.mem_singleton.mp isFirst]
      exact List.mem_cons_self)
    exact absurd untagged (tagged id (List.mem_of_mem_head? head))
  · obtain ⟨first, isFirst, steps, linked⟩ := exists_linkedIn reaches
    obtain ⟨_, own, _, exhausted, _, _, _, _, points⟩ :=
      (real fun id' => rank (stepsTo index.finalGraph id (steps + 1) id')).kept wellFormed fits
    have head := exhausted.head_of_steps ranks linked isFirst
    refine absurd frozen (points id ?_)
    obtain ⟨left, rfl⟩ := Nat.exists_eq_succ_of_ne_zero positive.ne'
    obtain ⟨rest, rfl⟩ := List.head?_eq_some_iff.mp head
    rw [List.take_succ_cons]
    exact List.mem_cons_self

end Kept

end Index

end OdinVector

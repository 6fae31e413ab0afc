/-
This file proves that `insert_point` enters its tag with its vector into the map of an index
between calls, and does not crash, when a growth fits 32 bits.

The location is behind the points. An index that is full grows first, which moves the frozen
point behind the new locations: an edge from the frozen point to itself then names the
location that is reserved next.
-/

import OdinVector.InMemory.Settled

namespace OdinVector

open Binary

variable {Component Tag : Type}

namespace Index

variable {format : Format Component} {index : Index Component Tag}
variable {params : InsertParams} {picks : InsertPicks} {location : Nat}

/-- An index whose last location is reserved, without a tag yet. -/
structure Reserving (index : Index Component Tag) (location : Nat) : Prop where
  last : index.nd = location + 1
  bounded : index.nd ≤ index.maxPoints
  compacted : index.dataCompacted = true
  eager : index.eagerDone = false
  slots : index.emptySlots = Finset.Ico index.nd index.maxPoints
  deleted : ∀ place ∈ index.deleteSet, place < location
  live : ∀ place < location, (index.locationToTag place = none ↔ place ∈ index.deleteSet)
  tagged : ∀ place tag, index.locationToTag place = some tag → place < location
  inverse : ∀ tag place,
    index.tagToLocation tag = some place ↔ index.locationToTag place = some tag
  two : 2 ≤ index.maxPoints
  frozen : index.numFrozenPts = 1
  tagsEnabled : index.enableTags = true
  entry : index.ep = index.maxPoints
  links : index.LinksPoints index.finalGraph

/-! ### Reserving a location -/

/-- The index after `reserve_location`. -/
def withNext (index : Index Component Tag) : Index Component Tag :=
  { index with emptySlots := index.emptySlots.erase index.nd, nd := index.nd + 1 }

/-- The location behind the points is reserved. -/
theorem reserveLocation_eq (compacted : index.dataCompacted = true)
    (room : index.nd < index.maxPoints) (slot : Nat) :
    index.toIndexTables.reserveLocation slot =
      some (.location index.nd index.withNext.toIndexTables) := by
  unfold IndexTables.reserveLocation
  rw [if_neg (Nat.not_le.mpr room), if_pos compacted]
  rfl

theorem erase_Ico (first last : Nat) :
    (Finset.Ico first last).erase first = Finset.Ico (first + 1) last := by
  ext location
  rw [Finset.mem_erase, Finset.mem_Ico, Finset.mem_Ico]
  omega

/-- A location of an index that is not full. -/
theorem Settled.reserving (settled : index.Settled) (room : index.nd < index.maxPoints) :
    index.withNext.Reserving index.nd := by
  have slots : index.withNext.emptySlots = Finset.Ico (index.nd + 1) index.maxPoints := by
    show index.emptySlots.erase index.nd = _
    rw [settled.slots, erase_Ico]
  have point (place : Nat) :
      index.withNext.IsPoint place ↔ place < index.nd + 1 ∨ place = index.maxPoints :=
    @isPoint_iff _ _ index.withNext settled.frozen place
  refine ⟨rfl, room, settled.compacted, settled.eager, slots, settled.deleted, settled.live,
    settled.tagged, settled.inverse, settled.two, settled.frozen, settled.tagsEnabled,
    settled.entry, fun place inside nbr member => ?_, fun place outside => ?_⟩
  · by_cases before : index.IsPoint place
    · have named := settled.links.linked place before nbr member
      rw [isPoint_iff settled.frozen] at named
      rw [point]
      exact named.imp_left Nat.lt_succ_of_lt
    · have none : index.finalGraph place = [] := settled.links.empty place before
      have there : nbr ∈ index.finalGraph place := member
      rw [none] at there
      exact absurd there List.not_mem_nil
  · refine settled.links.empty place fun before => outside ?_
    rw [isPoint_iff settled.frozen] at before
    rw [point]
    exact before.imp_left Nat.lt_succ_of_lt

/-- A full index after `resize`, with its next location reserved. -/
theorem Settled.reserving_resizeTo (settled : index.Settled) (full : index.nd = index.maxPoints)
    {newMaxPoints : Nat} (more : index.maxPoints < newMaxPoints) :
    (index.resizeTo format newMaxPoints).withNext.Reserving index.nd := by
  have slots : (index.resizeTo format newMaxPoints).withNext.emptySlots =
      Finset.Ico (index.nd + 1) newMaxPoints := by
    show (index.emptySlots ∪ Finset.Ico index.nd newMaxPoints).erase index.nd = _
    have none : index.emptySlots = ∅ := by
      rw [settled.slots, full, Finset.Ico_self]
    rw [none, Finset.empty_union, erase_Ico]
  have point (place : Nat) : (index.resizeTo format newMaxPoints).withNext.IsPoint place ↔
      place < index.nd + 1 ∨ place = newMaxPoints :=
    @isPoint_iff _ _ (index.resizeTo format newMaxPoints).withNext settled.frozen place
  have frozenPoint : index.IsPoint index.maxPoints := by
    rw [isPoint_iff settled.frozen]
    exact Or.inr rfl
  have list (place : Nat) : (index.resizeTo format newMaxPoints).withNext.finalGraph place =
      if place = index.maxPoints then []
      else if place = newMaxPoints then index.finalGraph index.maxPoints
      else index.renamed index.maxPoints newMaxPoints place := by
    unfold resizeTo withNext repositionPoint
    dsimp only
    by_cases old : place = index.maxPoints
    · rw [if_pos old, old, Function.update_self]
    · rw [if_neg old, Function.update_of_ne old]
      by_cases new : place = newMaxPoints
      · rw [if_pos new, new, Function.update_self, Function.update_of_ne more.ne, full,
          Function.update_of_ne more.ne, List.take_length]
        exact if_neg (by omega)
      · rw [if_neg new, Function.update_of_ne new, Function.update_of_ne new]
  refine ⟨rfl, ?_, settled.compacted, settled.eager, slots, settled.deleted, settled.live,
    settled.tagged, settled.inverse, settled.two.trans more.le, settled.frozen,
    settled.tagsEnabled, rfl, fun place inside nbr member => ?_, fun place outside => ?_⟩
  · show index.nd + 1 ≤ newMaxPoints
    omega
  · rw [list] at member
    rw [point]
    split at member
    · exact absurd member List.not_mem_nil
    · split at member
      · have named := settled.links.linked _ frozenPoint nbr member
        rw [isPoint_iff settled.frozen] at named
        left
        omega
      · unfold renamed at member
        split at member
        · rename_i before
          obtain ⟨old, there, rfl⟩ := List.mem_map.mp member
          have named := settled.links.linked place (Or.inl before) old there
          rw [isPoint_iff settled.frozen] at named
          split
          · exact Or.inr rfl
          · left
            omega
        · rename_i behind
          rw [point] at inside
          omega
  · rw [list]
    rw [point, not_or] at outside
    rw [if_neg (by omega), if_neg outside.2]
    refine (if_neg (by omega)).trans (settled.links.empty place ?_)
    rw [isPoint_iff settled.frozen]
    omega

/-- The vectors stay where they are when an index grows. -/
theorem Settled.vectors_resizeTo (settled : index.Settled) (full : index.nd = index.maxPoints)
    {newMaxPoints : Nat} (more : index.maxPoints < newMaxPoints) :
    (index.resizeTo format newMaxPoints).vectors = index.vectors := by
  funext tag
  unfold vectors getVectorByTag
  show ((index.tagToLocation tag).map (Function.update (Function.update index.data newMaxPoints
    (index.data index.maxPoints)) index.maxPoints (index.zeroVector format))).map
      (List.take index.dim) = _
  cases has : index.tagToLocation tag with
  | none => rfl
  | some place =>
    have inside := settled.lt_nd has
    rw [Option.map_some, Option.map_some, Option.map_some, Option.map_some,
      Function.update_of_ne (by omega), Function.update_of_ne (by omega)]

/-! ### Entering the point -/

section Enter

variable [DecidableEq Tag] {tag : Tag} {point : List Component}

/-- The location has its tag and its vector. -/
theorem Reserving.enterPoint (reserving : index.Reserving location)
    (absent : index.tagToLocation tag = none) (length : point.length = index.dim) :
    (index.enterPoint format point tag location).Settled ∧
      (index.enterPoint format point tag location).vectors =
        Function.update index.vectors tag (some point) := by
  have last := reserving.last
  have tables : (index.toIndexTables.setTag tag location).Settled := by
    unfold IndexTables.setTag
    refine ⟨reserving.bounded, reserving.compacted, reserving.eager, reserving.slots,
      fun place gone => ?_, fun place inside => ?_, fun place other has => ?_,
      fun other place => ?_⟩
    · show place < index.nd
      have before := reserving.deleted place gone
      omega
    · dsimp only at inside ⊢
      by_cases here : place = location
      · rw [here, Function.update_self]
        exact iff_of_false nofun fun gone =>
          Nat.lt_irrefl _ (reserving.deleted location gone)
      · rw [Function.update_of_ne here]
        exact reserving.live place (by omega)
    · show place < index.nd
      dsimp only at has
      by_cases here : place = location
      · omega
      · rw [Function.update_of_ne here] at has
        have before := reserving.tagged place other has
        omega
    · dsimp only
      by_cases this : other = tag
      · rw [this, Function.update_self]
        by_cases here : place = location
        · rw [here, Function.update_self]
          exact iff_of_true rfl rfl
        · rw [Function.update_of_ne here]
          refine iff_of_false (fun same => here (Option.some.inj same).symm) fun has => ?_
          exact nomatch absent.symm.trans ((reserving.inverse tag place).mpr has)
      · rw [Function.update_of_ne this]
        by_cases here : place = location
        · rw [here, Function.update_self]
          refine iff_of_false (fun has => ?_) fun same => this (Option.some.inj same).symm
          exact Nat.lt_irrefl _
            (reserving.tagged location other ((reserving.inverse other location).mp has))
        · rw [Function.update_of_ne here]
          exact reserving.inverse other place
  refine ⟨⟨tables, reserving.two, reserving.frozen, reserving.tagsEnabled, reserving.entry,
    reserving.links.linked, reserving.links.empty⟩, ?_⟩
  funext other
  unfold vectors getVectorByTag
  show ((Function.update index.tagToLocation tag (some location) other).map
    (Function.update index.data location _)).map (List.take index.dim) = _
  by_cases this : other = tag
  · rw [this, Function.update_self, Function.update_self, Option.map_some, Option.map_some,
      Function.update_self, List.take_left' length]
  · rw [Function.update_of_ne this, Function.update_of_ne this]
    cases has : index.tagToLocation other with
    | none => rfl
    | some place =>
      have before := reserving.tagged place other ((reserving.inverse other place).mp has)
      rw [Option.map_some, Option.map_some, Function.update_of_ne before.ne]
      rfl

end Enter

/-! ### Linking the point -/

/-- A search expands points. -/
theorem LinksPoints.expands (links : index.LinksPoints index.finalGraph)
    (entry : index.IsPoint index.ep) {earlier later : List Nat}
    (points : ∀ id ∈ earlier, index.IsPoint id)
    (expands : Expands index.finalGraph index.ep earlier later) :
    ∀ id ∈ later, index.IsPoint id := by
  induction later generalizing earlier with
  | nil => exact fun _ => nofun
  | cons first rest inductionHypothesis =>
    obtain ⟨reached, others⟩ := expands
    have point : index.IsPoint first := by
      obtain rfl | ⟨n, before, member⟩ := reached
      · exact entry
      · exact links.linked n (points n before) first member
    intro id member
    obtain rfl | later := List.mem_cons.mp member
    · exact point
    · refine inductionHypothesis (fun other before => ?_) others id later
      obtain rfl | already := List.mem_cons.mp before
      · exact point
      · exact points other already

/-- The first location that a search expands is the entry point. -/
theorem ep_mem_of_expands {lists : Nat → List Nat} {ep : Nat} {expanded : List Nat}
    (expands : Expands lists ep [] expanded) (some : expanded ≠ []) : ep ∈ expanded := by
  cases expanded with
  | nil => exact absurd rfl some
  | cons first rest =>
    obtain same | ⟨n, member, -⟩ := expands.1
    · exact same ▸ List.mem_cons_self
    · exact absurd member List.not_mem_nil

/-- A round of `inter_insert` links points. -/
theorem LinksPoints.interInsertInto {lists next : Nat → List Nat} {pruned : Nat → List Nat}
    {slack n des : Nat} (links : index.LinksPoints lists) (point : index.IsPoint n)
    (target : index.IsPoint des)
    (taken : OdinVector.interInsertInto slack n pruned lists des = some next) :
    index.LinksPoints next := by
  have updated (list : List Nat) (named : ∀ nbr ∈ list, index.IsPoint nbr) :
      index.LinksPoints (Function.update lists des list) := by
    refine ⟨fun place inside nbr member => ?_, fun place outside => ?_⟩
    · by_cases here : place = des
      · rw [here, Function.update_self] at member
        exact named nbr member
      · rw [Function.update_of_ne here] at member
        exact links.linked place inside nbr member
    · have other : place ≠ des := fun same => outside (same ▸ target)
      rw [Function.update_of_ne other]
      exact links.empty place outside
  have longer : ∀ nbr ∈ lists des ++ [n], index.IsPoint nbr := by
    intro nbr member
    obtain before | last := List.mem_append.mp member
    · exact links.linked des target nbr before
    · exact List.mem_singleton.mp last ▸ point
  unfold OdinVector.interInsertInto at taken
  split at taken
  · exact Option.some.inj taken ▸ links
  · split at taken
    · exact Option.some.inj taken ▸ updated _ longer
    · obtain ⟨prunes, same⟩ := Option.ite_none_right_eq_some.mp taken
      exact Option.some.inj same ▸ updated _ fun nbr member => longer nbr (prunes nbr member).1

/-- The rounds of `inter_insert` link points. -/
theorem LinksPoints.interInsert {pruned : Nat → List Nat} {slack n : Nat}
    (point : index.IsPoint n) {targets : List Nat}
    (points : ∀ des ∈ targets, index.IsPoint des) :
    ∀ {lists next : Nat → List Nat}, index.LinksPoints lists →
      targets.foldlM (OdinVector.interInsertInto slack n pruned) lists = some next →
        index.LinksPoints next := by
  induction targets with
  | nil =>
    intro lists next links done
    exact Option.some.inj done ▸ links
  | cons des rest inductionHypothesis =>
    intro lists next links done
    obtain ⟨between, first, others⟩ := Option.bind_eq_some_iff.mp done
    exact inductionHypothesis (fun other member => points other (List.mem_cons_of_mem _ member))
      (links.interInsertInto point (points des List.mem_cons_self) first) others

/-- A point is linked with points; its search has something to prune. -/
theorem Settled.linkPoint (settled : index.Settled) (inside : location < index.nd)
    {after : IndexProcess Component Tag}
    (done : index.linkPoint params picks location = some after) :
    ∃ next, after = .running next ∧ next.Settled ∧ next.vectors = index.vectors := by
  have frozenPoint : index.IsPoint index.ep := by
    rw [settled.entry, isPoint_iff settled.frozen]
    exact Or.inr rfl
  unfold Index.linkPoint at done
  obtain ⟨⟨expands, some_⟩, done⟩ := Option.ite_none_right_eq_some.mp done
  have points := settled.links.expands frozenPoint (fun _ none => absurd none List.not_mem_nil) expands
  have left : index.ep ∈ picks.expanded.erase location := by
    have bounded := settled.bounded
    have other : index.ep ≠ location := by
      rw [settled.entry]
      omega
    exact (List.mem_erase_of_ne other).mpr (ep_mem_of_expands expands some_)
  rw [if_neg (List.ne_nil_of_mem left)] at done
  obtain ⟨prunes, done⟩ := Option.ite_none_right_eq_some.mp done
  obtain ⟨lists, rounds, rfl⟩ := Option.map_eq_some_iff.mp done
  have targets : ∀ des ∈ picks.pruned location, index.IsPoint des := fun des member =>
    points des (List.mem_of_mem_erase (prunes des member).1)
  have start : index.LinksPoints
      (Function.update index.finalGraph location (picks.pruned location)) := by
    refine ⟨fun place point nbr member => ?_, fun place outside => ?_⟩
    · by_cases here : place = location
      · rw [here, Function.update_self] at member
        exact targets nbr member
      · rw [Function.update_of_ne here] at member
        exact settled.links.linked place point nbr member
    · have other : place ≠ location := fun same => outside (same ▸ Or.inl inside)
      rw [Function.update_of_ne other]
      exact settled.links.empty place outside
  have links := LinksPoints.interInsert (Or.inl inside) targets start rounds
  exact ⟨_, rfl, ⟨settled.toSettled, settled.two, settled.frozen, settled.tagsEnabled,
    settled.entry, links.linked, links.empty⟩, rfl⟩

/-! ### `insert_point` -/

section Insert

variable [DecidableEq Tag] {tag : Tag} {point : List Component}

/-- An old location of the tag is deleted first. -/
theorem Settled.deleteFirst (settled : index.Settled) (tag : Tag) :
    (index.deleteFirst tag).Settled ∧
      (index.deleteFirst tag).vectors = Function.update index.vectors tag none ∧
      (index.deleteFirst tag).tagToLocation tag = none ∧
      (index.deleteFirst tag).nd = index.nd ∧
      (index.deleteFirst tag).maxPoints = index.maxPoints ∧
      (index.deleteFirst tag).dim = index.dim := by
  unfold Index.deleteFirst
  by_cases none : index.tagToLocation tag = none
  · rw [if_neg fun both => both.2 none]
    have absent : index.vectors tag = Option.none := by
      unfold vectors getVectorByTag
      rw [none]
      rfl
    refine ⟨settled, ?_, none, rfl, rfl, rfl⟩
    rw [← absent, Function.update_eq_self]
  · obtain ⟨place, has⟩ := Option.ne_none_iff_exists'.mp none
    rw [if_pos ⟨settled.tagsEnabled, none⟩]
    obtain ⟨after, vectors⟩ := settled.replaceTag has
    rw [IndexTables.replaceTag_eq has] at after vectors ⊢
    exact ⟨after, vectors, Function.update_self _ _ _, rfl, rfl, rfl⟩

/-- `insert_point` enters a vector under its tag. -/
theorem Settled.insertPoint (settled : index.Settled)
    (fits : index.maxPoints ≤ index.nd → grown index.maxPoints < 2 ^ 32)
    (length : point.length = index.dim) {after : IndexProcess Component Tag}
    (done : index.insertPoint format params point tag picks = some after) :
    ∃ next, after = .running next ∧ next.Settled ∧
      next.vectors = Function.update index.vectors tag (some point) := by
  obtain ⟨deleted, vectors, absent, nd, maxPoints, dim⟩ := settled.deleteFirst tag
  have finish (reserved : Index Component Tag)
      (reserving : reserved.Reserving (index.deleteFirst tag).nd)
      (same : reserved.tagToLocation tag = none)
      (kept : reserved.vectors = (index.deleteFirst tag).vectors)
      (dims : reserved.dim = index.dim)
      (linked : (reserved.enterPoint format point tag (index.deleteFirst tag).nd).linkPoint
        params picks (index.deleteFirst tag).nd = some after) :
      ∃ next, after = .running next ∧ next.Settled ∧
        next.vectors = Function.update index.vectors tag (some point) := by
    obtain ⟨entered, map⟩ :=
      @Reserving.enterPoint _ _ format _ _ _ tag point reserving same (length.trans dims.symm)
    have inside : (index.deleteFirst tag).nd <
        (reserved.enterPoint format point tag (index.deleteFirst tag).nd).nd := by
      show _ < reserved.nd
      rw [reserving.last]
      exact Nat.lt_succ_self _
    obtain ⟨next, rfl, settledNext, mapNext⟩ := entered.linkPoint inside linked
    refine ⟨next, rfl, settledNext, ?_⟩
    rw [mapNext, map, kept, vectors, Function.update_idem]
  unfold Index.insertPoint at done
  dsimp only at done
  obtain full | room := deleted.bounded.eq_or_lt
  · have first : (index.deleteFirst tag).toIndexTables.reserveLocation picks.slot = some .full :=
      if_pos full.ge
    have more : (index.deleteFirst tag).maxPoints < grown (index.deleteFirst tag).maxPoints :=
      lt_grown deleted.two
    have size : grown (index.deleteFirst tag).maxPoints % 2 ^ 32 =
        grown (index.deleteFirst tag).maxPoints := by
      refine Nat.mod_eq_of_lt ?_
      rw [maxPoints]
      refine fits ?_
      rw [← maxPoints, ← nd]
      exact full.ge
    have grows : (index.deleteFirst tag).growIfFull format =
        (index.deleteFirst tag).resizeTo format (grown (index.deleteFirst tag).maxPoints) := by
      unfold growIfFull
      rw [if_pos full.ge, size]
    have second := @reserveLocation_eq _ _ ((index.deleteFirst tag).resizeTo format
      (grown (index.deleteFirst tag).maxPoints)) deleted.compacted (full.trans_lt more) picks.slot
    rw [first, Option.bind_some] at done
    dsimp only at done
    rw [grows, second, Option.bind_some] at done
    exact finish _ (deleted.reserving_resizeTo full more) absent
      (deleted.vectors_resizeTo full more) dim done
  · rw [reserveLocation_eq deleted.compacted room, Option.bind_some] at done
    exact finish _ (deleted.reserving room) absent rfl dim done

end Insert

end Index

end OdinVector

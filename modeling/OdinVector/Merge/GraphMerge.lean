/-
This file models the merges that only rewrite the lists: `rebuild_graph_in_place`, which writes
the pages back to the file they come from, and `merge_graph_only`, which writes them to another
prefix and copies the files of the tags and codes. The deletion sets are not looked at.

The pages are written in batches of whole sectors. No two batches have a sector in common, so a
batch of the pass in place reads what was there before the pass.
-/

import OdinVector.Merge.LiveData

namespace OdinVector

variable {Point Code Distance : Type}

/-! ### Windows that are written one after the other -/

/-- Rounds that each rewrite a window of their own leave every window rewritten once. -/
theorem foldl_windows {Page : Type} {window : Nat → List Nat}
    (disjoint : ∀ {first second sector}, sector ∈ window first → sector ∈ window second →
      first = second)
    {write : (Nat → Page) → Nat → Nat → Page} {rewritten target : Nat → Page}
    (each : ∀ pages batch, (∀ sector ∈ window batch, pages sector = target sector) →
      write pages batch = fun sector =>
        if sector ∈ window batch then rewritten sector else pages sector) (batches : Nat) :
    (List.range batches).foldl write target = fun sector =>
      if ∃ batch < batches, sector ∈ window batch then rewritten sector else target sector := by
  induction batches with
  | zero =>
    funext sector
    rw [if_neg fun ⟨_, before, _⟩ => Nat.not_lt_zero _ before]
    rfl
  | succ batches inductionHypothesis =>
    have apart : ∀ sector ∈ window batches, ¬ ∃ batch < batches, sector ∈ window batch :=
      fun sector here ⟨batch, before, there⟩ =>
        Nat.lt_irrefl batches (disjoint there here ▸ before)
    rw [List.range_succ, List.foldl_append, inductionHypothesis, List.foldl_cons, List.foldl_nil,
      each _ batches fun sector here => if_neg (apart sector here)]
    funext sector
    by_cases here : sector ∈ window batches
    · rw [if_pos here, if_pos ⟨batches, Nat.lt_succ_self _, here⟩]
    · rw [if_neg here]
      refine if_congr ⟨fun ⟨batch, before, there⟩ => ⟨batch, before.trans (Nat.lt_succ_self _), there⟩,
        fun ⟨batch, before, there⟩ => ⟨batch, ?_, there⟩⟩ rfl rfl
      exact Nat.lt_of_le_of_ne (Nat.le_of_lt_succ before) fun same => here (same ▸ there)

/-! ### The passes -/

namespace Geometry

variable {geometry : Geometry} {curLoc sectors : Nat}

/-- The sectors that a batch reads and writes. -/
def batchSectors (geometry : Geometry) (curLoc sectors batch : Nat) : List Nat :=
  let stSector := batch * sectors
  let edSector := min (stSector + sectors) (geometry.nSectors curLoc)
  List.range' (geometry.locSectorNo (stSector * geometry.nnodesPerSector)) (edSector - stSector)

theorem mem_batchSectors {batch sector : Nat} :
    sector ∈ geometry.batchSectors curLoc sectors batch ↔ batch * sectors < sector ∧
      sector ≤ (batch + 1) * sectors ∧ sector ≤ geometry.nSectors curLoc := by
  have first : geometry.locSectorNo (batch * sectors * geometry.nnodesPerSector) =
      1 + batch * sectors := by
    rw [locSectorNo, Nat.mul_div_cancel _ geometry.nnodesPerSector_pos]
  unfold batchSectors
  dsimp only
  rw [List.mem_range'_1, first, Nat.succ_mul]
  omega

/-- The sectors of the batches are those of the locations. -/
theorem exists_batchSectors_iff (positive : 0 < sectors) {sector : Nat} :
    (∃ batch < geometry.nBatches curLoc sectors,
      sector ∈ geometry.batchSectors curLoc sectors batch) ↔
        1 ≤ sector ∧ sector ≤ geometry.nSectors curLoc := by
  constructor
  · rintro ⟨batch, _, member⟩
    obtain ⟨after, _, inside⟩ := mem_batchSectors.mp member
    exact ⟨Nat.zero_lt_of_lt after, inside⟩
  · rintro ⟨data, inside⟩
    have whole := Nat.div_add_mod (sector - 1) sectors
    have below := Nat.mod_lt (sector - 1) positive
    rw [Nat.mul_comm] at whole
    refine ⟨(sector - 1) / sectors, ?_, mem_batchSectors.mpr ⟨?_, ?_, inside⟩⟩
    · refine Nat.lt_of_succ_le ?_
      rw [nBatches, Nat.succ_eq_add_one, ← Nat.add_div_right _ positive]
      exact Nat.div_le_div_right (by omega)
    · omega
    · rw [Nat.succ_mul]
      omega

theorem batchSectors_disjoint {first second sector : Nat}
    (here : sector ∈ geometry.batchSectors curLoc sectors first)
    (there : sector ∈ geometry.batchSectors curLoc sectors second) : first = second := by
  have batchOf : ∀ {batch}, sector ∈ geometry.batchSectors curLoc sectors batch →
      (sector - 1) / sectors = batch := fun {batch} member => by
    obtain ⟨after, before, _⟩ := mem_batchSectors.mp member
    rw [Nat.succ_mul] at before
    refine Nat.div_eq_of_lt_le ?_ ?_
    · omega
    · rw [Nat.succ_mul]
      omega
  exact (batchOf here).symm.trans (batchOf there)

theorem locSectorNo_le_nSectors {loc : Nat} (below : loc < curLoc) :
    geometry.locSectorNo loc ≤ geometry.nSectors curLoc := by
  have quotient := (Nat.div_lt_iff_lt_mul geometry.nnodesPerSector_pos).mpr
    (below.trans_le (le_nSectors_mul curLoc))
  rw [locSectorNo]
  omega

end Geometry

namespace MergeInput

section Passes

variable [LinearOrder Distance] (input : MergeInput Point Code Distance)

/-- The list that is written back: each neighbour once, not the point itself, and pruned if it is
longer than `range`. -/
def rebuiltNhood (id : Nat) (nbrs : List Nat) : List Nat :=
  input.prunedNhood id (input.elements (nbrs.toFinset.erase id))

/-- The record that is written back at a location. -/
def rebuiltNode (loc : Nat) (node : DiskNode Point) : DiskNode Point :=
  match input.loc2id loc with
  | .real id => ⟨node.coords, input.rebuiltNhood id node.nbrs⟩
  | .kAllocatedID | .kInvalidID => node

/-- The body of the loop over the locations, which works on the pages that were read. -/
def rebuildLoc (pages : Nat → PageImage Point) (loc : Nat) : Nat → PageImage Point :=
  let page := input.params.geometry.locSectorNo loc
  Function.update pages page (Function.update (pages page) (input.params.geometry.slotOf loc)
    (input.rebuiltNode loc (recordAt input.params.geometry pages loc)))

/-- The sectors of a batch. -/
def sectorsOf (batch : Nat) : List Nat :=
  input.params.geometry.batchSectors input.index.layout.curLoc sectorsPerMerge batch

/-- A batch that is read from one file and written to another one. -/
def rebuildBatch (source target : Nat → PageImage Point) (batch : Nat) : Nat → PageImage Point :=
  fun sector =>
    if sector ∈ input.sectorsOf batch then
      (input.mergeOrder batch).foldl input.rebuildLoc source sector
    else target sector

/-- The batches of a pass. -/
def rebuildBatches : List Nat :=
  List.range (input.params.geometry.nBatches input.index.layout.curLoc sectorsPerMerge)

/-- `rebuild_graph_in_place`. -/
def rebuildGraphInPlace : Nat → PageImage Point :=
  input.rebuildBatches.foldl (fun pages => input.rebuildBatch pages pages) input.index.graph

/-- The pages that `merge_graph_only` writes to the file of the other prefix. -/
def rebuildTo (target : Nat → PageImage Point) : Nat → PageImage Point :=
  input.rebuildBatches.foldl (input.rebuildBatch input.index.graph) target

/-- `merge_graph_only`, from the files under one prefix to those under the other one. -/
def mergeGraphOnly (filesIn filesOut : IndexFiles Point Code) : IndexFiles Point Code where
  header :=
    { npoints := input.index.curId
      medoid := input.index.medoid
      fileSize := fileSizeOf input.params.geometry input.index.curId }
  graph := input.rebuildTo filesOut.graph
  tags := filesIn.tags <|> filesOut.tags
  pqCompressed := filesIn.pqCompressed
  partition := filesOut.partition

end Passes

/-! ### One batch -/

section Batch

variable [LinearOrder Distance] {input : MergeInput Point Code Distance}

/-- The locations of a batch are rewritten one by one. -/
theorem recordAt_foldl_rebuildLoc (pages : Nat → PageImage Point) {locs : List Nat}
    (nodup : locs.Nodup) (sector : Nat) (slot : Nat) :
    locs.foldl input.rebuildLoc pages sector slot =
      if ∃ loc ∈ locs, input.params.geometry.locSectorNo loc = sector ∧
          input.params.geometry.slotOf loc = slot then
        input.rebuiltNode (input.params.geometry.sectorToLoc sector slot) (pages sector slot)
      else pages sector slot := by
  induction locs using List.reverseRecOn with
  | nil =>
    rw [if_neg fun ⟨_, member, _⟩ => List.not_mem_nil member]
    rfl
  | append_singleton locs loc inductionHypothesis =>
    obtain ⟨nodup, _, apart⟩ := List.nodup_append.mp nodup
    have fresh : loc ∉ locs := fun member =>
      apart loc member loc (List.mem_singleton_self loc) rfl
    have before := inductionHypothesis nodup
    rw [List.foldl_append, List.foldl_cons, List.foldl_nil]
    by_cases here : input.params.geometry.locSectorNo loc = sector ∧
        input.params.geometry.slotOf loc = slot
    · obtain ⟨rfl, rfl⟩ := here
      have old : ¬ ∃ other ∈ locs,
          input.params.geometry.locSectorNo other = input.params.geometry.locSectorNo loc ∧
            input.params.geometry.slotOf other = input.params.geometry.slotOf loc :=
        fun ⟨other, member, page, place⟩ =>
          fresh (Geometry.eq_of_sector_of_slot page place ▸ member)
      rw [if_neg old] at before
      rw [if_pos ⟨loc, List.mem_append_right _ (List.mem_singleton_self loc), rfl, rfl⟩, rebuildLoc]
      rw [Function.update_self, Function.update_self, recordAt, before,
        input.params.geometry.sectorToLoc_locSectorNo]
    · have kept : input.rebuildLoc (locs.foldl input.rebuildLoc pages) loc sector slot =
          locs.foldl input.rebuildLoc pages sector slot := by
        unfold rebuildLoc
        by_cases page : input.params.geometry.locSectorNo loc = sector
        · subst page
          rw [Function.update_self, Function.update_of_ne fun same => here ⟨rfl, same.symm⟩]
        · rw [Function.update_of_ne fun same => page same.symm]
      rw [kept, before]
      refine if_congr (exists_congr fun other => ?_) rfl rfl
      rw [List.mem_append, List.mem_singleton, or_and_right, or_iff_left]
      rintro ⟨rfl, place⟩
      exact here place

/-- What a pass makes of the pages of the graph. -/
def rebuiltPages (input : MergeInput Point Code Distance) : Nat → PageImage Point :=
  fun sector slot =>
    if 1 ≤ sector ∧ slot < input.params.geometry.nnodesPerSector then
      input.rebuiltNode (input.params.geometry.sectorToLoc sector slot) (input.index.graph sector slot)
    else input.index.graph sector slot

theorem rebuiltNode_of_curLoc_le {loc : Nat} (above : input.index.layout.curLoc ≤ loc)
    (node : DiskNode Point) : input.rebuiltNode loc node = node := by
  unfold rebuiltNode
  cases here : input.loc2id loc with
  | real id => exact absurd (input.lt_curLoc_of_real here) (Nat.not_lt.mpr above)
  | kAllocatedID | kInvalidID => rfl

/-- A batch rewrites its sectors. -/
theorem rebuildBatch_eq {source : Nat → PageImage Point} (target : Nat → PageImage Point)
    {batch : Nat} (same : ∀ sector ∈ input.sectorsOf batch, source sector =
      input.index.graph sector) :
    input.rebuildBatch source target batch = fun sector =>
      if sector ∈ input.sectorsOf batch then input.rebuiltPages sector else target sector := by
  have nodup : (input.mergeOrder batch).Nodup :=
    (input.merge_perm batch).nodup_iff.mpr (Geometry.nodup_batchLocs _ _ _)
  funext sector
  unfold rebuildBatch
  by_cases inside : sector ∈ input.sectorsOf batch
  · rw [if_pos inside, if_pos inside]
    obtain ⟨after, before, _⟩ := Geometry.mem_batchSectors.mp inside
    have data : 1 ≤ sector := Nat.zero_lt_of_lt after
    funext slot
    rw [recordAt_foldl_rebuildLoc source nodup, same sector inside, rebuiltPages]
    by_cases taken : ∃ loc ∈ input.mergeOrder batch,
        input.params.geometry.locSectorNo loc = sector ∧ input.params.geometry.slotOf loc = slot
    · rw [if_pos taken]
      obtain ⟨loc, _, _, rfl⟩ := taken
      rw [if_pos ⟨data, input.params.geometry.slotOf_lt loc⟩]
    · rw [if_neg taken]
      split
      · rename_i place
        refine (rebuiltNode_of_curLoc_le ?_ _).symm
        by_contra below
        refine taken ⟨input.params.geometry.sectorToLoc sector slot, ?_,
          Geometry.locSectorNo_sectorToLoc data place.2, Geometry.slotOf_sectorToLoc sector place.2⟩
        rw [(input.merge_perm batch).mem_iff, Geometry.mem_batchLocs]
        have room : (sector - 1) * input.params.geometry.nnodesPerSector +
            input.params.geometry.nnodesPerSector =
              sector * input.params.geometry.nnodesPerSector := by
          rw [← Nat.succ_mul, Nat.succ_eq_add_one, Nat.sub_add_cancel data]
        have first := Nat.mul_le_mul_right input.params.geometry.nnodesPerSector
          (Nat.le_sub_one_of_lt after)
        have last := Nat.mul_le_mul_right input.params.geometry.nnodesPerSector before
        rw [← Nat.mul_assoc, ← Nat.mul_assoc]
        refine ⟨Nat.not_le.mp below, first.trans (Nat.le_add_right _ _), ?_⟩
        refine Nat.lt_of_lt_of_le (Nat.add_lt_add_left place.2 _) ?_
        rw [room]
        exact last
      · rfl
  · rw [if_neg inside, if_neg inside]

/-! ### A whole pass -/

theorem sectorsPerMerge_pos : 0 < sectorsPerMerge := by decide

theorem rebuiltPages_of_outside {sector : Nat} (outside : ¬ (1 ≤ sector ∧
    sector ≤ input.params.geometry.nSectors input.index.layout.curLoc)) :
    input.rebuiltPages sector = input.index.graph sector := by
  funext slot
  rw [rebuiltPages, ite_eq_right_iff]
  rintro ⟨data, inside⟩
  refine rebuiltNode_of_curLoc_le ?_ _
  by_contra below
  refine outside ⟨data, ?_⟩
  by_contra beyond
  have more := Nat.mul_le_mul_right input.params.geometry.nnodesPerSector
    (Nat.le_sub_one_of_lt (Nat.not_le.mp beyond))
  exact below ((Geometry.le_nSectors_mul _).trans (more.trans (Nat.le_add_right _ _)))

/-- The pass in place. -/
theorem rebuildGraphInPlace_eq : input.rebuildGraphInPlace = input.rebuiltPages := by
  unfold rebuildGraphInPlace rebuildBatches
  rw [foldl_windows Geometry.batchSectors_disjoint fun pages batch same => rebuildBatch_eq pages same]
  funext sector
  split
  · rfl
  · rename_i outside
    exact (rebuiltPages_of_outside ((Geometry.exists_batchSectors_iff sectorsPerMerge_pos).not.mp outside)).symm

/-- The pass to another prefix writes the same pages. Sectors after the last location are not
written. -/
theorem rebuildTo_eq (target : Nat → PageImage Point) : input.rebuildTo target = fun sector =>
    if 1 ≤ sector ∧ sector ≤ input.params.geometry.nSectors input.index.layout.curLoc then
      input.rebuiltPages sector
    else target sector := by
  unfold rebuildTo rebuildBatches
  rw [foldl_windows Geometry.batchSectors_disjoint fun pages batch _ => rebuildBatch_eq pages fun _ _ => rfl]
  funext sector
  exact if_congr (Geometry.exists_batchSectors_iff sectorsPerMerge_pos) rfl rfl

theorem recordAt_rebuiltPages (loc : Nat) :
    recordAt input.params.geometry input.rebuiltPages loc =
      input.rebuiltNode loc (input.node loc) := by
  rw [recordAt, rebuiltPages, if_pos ⟨input.params.geometry.locSectorNo_pos loc,
    input.params.geometry.slotOf_lt loc⟩, input.params.geometry.sectorToLoc_locSectorNo]
  rfl

theorem recordAt_rebuildGraphInPlace (input : MergeInput Point Code Distance) (loc : Nat) :
    recordAt input.params.geometry input.rebuildGraphInPlace loc =
      input.rebuiltNode loc (input.node loc) := by
  rw [rebuildGraphInPlace_eq, recordAt_rebuiltPages]

theorem recordAt_rebuildTo (target : Nat → PageImage Point) {loc : Nat}
    (below : loc < input.index.layout.curLoc) :
    recordAt input.params.geometry (input.rebuildTo target) loc =
      input.rebuiltNode loc (input.node loc) := by
  rw [← recordAt_rebuiltPages, recordAt, rebuildTo_eq]
  exact congrFun (if_pos ⟨input.params.geometry.locSectorNo_pos loc,
    Geometry.locSectorNo_le_nSectors below⟩) _

end Batch

end MergeInput

/-! ### The records after a pass -/

/-- The list that a pass writes for a point: its neighbours but for the point itself, all of them
when `range` allows it. -/
structure ListRebuilt (range id : Nat) (nbrs list : List Nat) : Prop where
  subset : ∀ nbr ∈ list, nbr ∈ nbrs
  bounded : list.length ≤ range
  nodup : list.Nodup
  notSelf : id ∉ list
  whole : (nbrs.toFinset.erase id).card ≤ range → ∀ nbr ∈ nbrs, nbr ≠ id → nbr ∈ list

/-- A list that fits has the same entries after a pass. -/
theorem ListRebuilt.perm {range id : Nat} {nbrs list : List Nat}
    (rebuilt : ListRebuilt range id nbrs list) (nodup : nbrs.Nodup) (notSelf : id ∉ nbrs)
    (bounded : nbrs.length ≤ range) : list.Perm nbrs := by
  refine (List.perm_ext_iff_of_nodup rebuilt.nodup nodup).mpr fun nbr => ⟨rebuilt.subset nbr, ?_⟩
  intro member
  refine rebuilt.whole ?_ nbr member fun self => notSelf (self ▸ member)
  refine (Finset.card_le_card (Finset.erase_subset _ _)).trans ?_
  exact (List.toFinset_card_le nbrs).trans bounded

namespace MergeCall

variable [LinearOrder Distance] (call : MergeCall Point Code Distance)

theorem listRebuilt (id : Nat) (nbrs : List Nat) :
    ListRebuilt call.params.prune.range id nbrs (call.rebuiltNhood id nbrs) := by
  have elements := call.mem_elements (nbrs.toFinset.erase id)
  have inside : ∀ nbr ∈ call.rebuiltNhood id nbrs, nbr ≠ id ∧ nbr ∈ nbrs := fun nbr member => by
    have kept := (elements nbr).mp (call.mem_of_mem_prunedNhood nbr member)
    exact (Finset.mem_erase.mp kept).imp_right List.mem_toFinset.mp
  refine
    { subset := fun nbr member => (inside nbr member).2
      bounded := MergeInput.length_prunedNhood_le id _
      nodup := MergeInput.nodup_prunedNhood id (call.elements_nodup _)
      notSelf := fun member => (inside id member).1 rfl
      whole := fun few nbr member other => ?_ }
  have short : (call.elements (nbrs.toFinset.erase id)).length ≤ call.params.prune.range := by
    have same : (call.elements (nbrs.toFinset.erase id)).toFinset = nbrs.toFinset.erase id :=
      Finset.ext fun nbr => List.mem_toFinset.trans (elements nbr)
    rw [← List.toFinset_card_of_nodup (call.elements_nodup _), same]
    exact few
  rw [MergeInput.rebuiltNhood, MergeInput.prunedNhood_of_le id short]
  exact (elements nbr).mpr (Finset.mem_erase.mpr ⟨other, List.mem_toFinset.mpr member⟩)

/-- The index with another graph file open. -/
def opened (graph : Nat → PageImage Point) : IndexContents Point Code :=
  { call.index with graph := graph }

omit [LinearOrder Distance] in
theorem record?_opened (graph : Nat → PageImage Point) (id : Nat) :
    (call.opened graph).record? call.params.geometry id =
      (call.index.layout.id2loc id).map (recordAt call.params.geometry graph) := rfl

variable {call}

/-- An index has the points of another one, with their lists rebuilt. -/
structure Rebuilt (call : MergeCall Point Code Distance) (index : IndexContents Point Code) :
    Prop where
  recorded : ∀ id old, call.index.record? call.params.geometry id = some old → ∃ new,
    index.record? call.params.geometry id = some new ∧ new.coords = old.coords ∧
      ListRebuilt call.params.prune.range id old.nbrs new.nbrs
  wellFormed : index.WellFormed call.params.geometry

theorem rebuilt_opened {graph : Nat → PageImage Point}
    (rewritten : ∀ loc < call.index.layout.curLoc, recordAt call.params.geometry graph loc =
      call.rebuiltNode loc (call.node loc)) : call.Rebuilt (call.opened graph) := by
  have record : ∀ {id loc}, call.index.layout.id2loc id = some loc →
      (call.opened graph).recordAtLoc call.params.geometry loc =
        ⟨(call.node loc).coords, call.rebuiltNhood id (call.node loc).nbrs⟩ := by
    intro id loc mapped
    have here := (call.wellFormed.consistent.bijective id loc).mp mapped
    refine (rewritten loc (call.lt_curLoc_of_real here)).trans ?_
    have here : call.loc2id loc = .real id := here
    rw [MergeInput.rebuiltNode, here]
  constructor
  · intro id old found
    obtain ⟨loc, mapped, rfl⟩ := Option.map_eq_some_iff.mp found
    refine ⟨_, Option.map_eq_some_iff.mpr ⟨loc, mapped, rfl⟩, ?_⟩
    rw [record mapped]
    exact ⟨rfl, call.listRebuilt id _⟩
  · refine
      { consistent := call.wellFormed.consistent
        linked := fun id loc mapped nbr listed => ?_
        medoid := call.wellFormed.medoid }
    have mapped : call.index.layout.id2loc id = some loc := mapped
    rw [record mapped] at listed
    exact call.wellFormed.linked id loc mapped nbr ((call.listRebuilt id _).subset nbr listed)

omit [LinearOrder Distance] in
/-- Lists that are rebuilt twice have the entries that they have when they are rebuilt once. -/
theorem Rebuilt.again {graph newGraph : Nat → PageImage Point}
    (first : call.Rebuilt (call.opened graph)) {again : MergeCall Point Code Distance}
    (params : again.params = call.params) (index : again.index = call.opened graph)
    (second : again.Rebuilt (again.opened newGraph)) {id : Nat} {node : DiskNode Point}
    (found : (call.opened graph).record? call.params.geometry id = some node) :
    ∃ new, (again.opened newGraph).record? call.params.geometry id = some new ∧
      new.coords = node.coords ∧ new.nbrs.Perm node.nbrs := by
  obtain ⟨loc, mapped, _⟩ := Option.map_eq_some_iff.mp found
  obtain ⟨same, isSame, _, fits⟩ := first.recorded id _
    (Option.map_eq_some_iff.mpr ⟨loc, mapped, rfl⟩)
  obtain rfl := Option.some.inj (found.symm.trans isSame)
  rw [← index, ← params] at found
  obtain ⟨new, isNew, coords, rebuilt⟩ := second.recorded id node found
  rw [params] at isNew rebuilt
  exact ⟨new, isNew, coords, rebuilt.perm fits.nodup fits.notSelf fits.bounded⟩

variable (call)

theorem rebuilt_inPlace : call.Rebuilt (call.opened call.rebuildGraphInPlace) :=
  rebuilt_opened fun loc _ => call.recordAt_rebuildGraphInPlace loc

theorem rebuilt_copied (filesIn filesOut : IndexFiles Point Code) :
    call.Rebuilt (call.opened (call.mergeGraphOnly filesIn filesOut).graph) :=
  rebuilt_opened fun _ below => MergeInput.recordAt_rebuildTo filesOut.graph below

end MergeCall

/-- Both passes write the same records: each point keeps its coordinates and its neighbours but
for repeated ones and itself, pruned when there are more than `range`. The index stays well formed
on either file, and a second pass changes no list but for its order. -/
theorem graph_merge_rebuilds [LinearOrder Distance] (call : MergeCall Point Code Distance)
    (filesIn : IndexFiles Point Code) :
    let inPlace := call.opened call.rebuildGraphInPlace
    let copied := call.opened (call.mergeGraphOnly filesIn call.before).graph
    call.Rebuilt inPlace ∧ call.Rebuilt copied ∧
      (∀ id, copied.record? call.params.geometry id = inPlace.record? call.params.geometry id) ∧
        ∀ again : MergeCall Point Code Distance, again.params = call.params →
          again.index = inPlace → ∀ id node,
            inPlace.record? call.params.geometry id = some node → ∃ new,
              (again.opened again.rebuildGraphInPlace).record? call.params.geometry id =
                  some new ∧ new.coords = node.coords ∧ new.nbrs.Perm node.nbrs := by
  refine ⟨call.rebuilt_inPlace, call.rebuilt_copied filesIn call.before, fun id => ?_,
    fun again params index id node found =>
      call.rebuilt_inPlace.again params index again.rebuilt_inPlace found⟩
  rw [MergeCall.record?_opened, MergeCall.record?_opened]
  refine Option.map_congr fun loc mapped => ?_
  have below := call.lt_curLoc_of_real ((call.wellFormed.consistent.bijective id loc).mp mapped)
  exact (MergeInput.recordAt_rebuildTo _ below).trans (call.recordAt_rebuildGraphInPlace loc).symm

end OdinVector

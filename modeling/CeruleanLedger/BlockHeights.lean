import CeruleanLedger.DagStructure

/-!
Heights in the DAG of `accept_block`. `consensus/validator.rs` has a height check, but neither
`validate` nor `accept_block` runs it, so a block declares any height.
-/

namespace CeruleanLedger.BlockHeights

open ByteCodec BlockDag BlockAdmission ForestFold ForestPaths ForkChoice ForkAgreement
open DagStructure GuardedRun QuorumValidation

/-- `BlockValidator::validate_height`, which no caller uses. -/
def validateHeight (block : DagBlock) (parentHeight : UInt64) : Except String Unit :=
  if block.height ≤ parentHeight && !block.isGenesis then
    .error ("Block height " ++ toString block.height ++ " must be > parent height " ++
      toString parentHeight)
  else .ok ()

theorem validate_height_iff (block : DagBlock) (parentHeight : UInt64) :
    validateHeight block parentHeight = .ok () ↔
      (block.isGenesis = false → parentHeight < block.height) := by
  unfold validateHeight
  cases block.isGenesis <;> simp

def accept (engine : ConsensusEngine) (call : Surroundings × DagBlock) : ConsensusEngine :=
  (engine.acceptBlock call.1 call.2).1

theorem accept_all_eq (engine : ConsensusEngine) (calls : List (Surroundings × DagBlock)) :
    (acceptAll engine calls).1 = calls.foldl accept engine := by
  induction calls generalizing engine with
  | nil => rfl
  | cons call rest ih => exact ih (accept engine call)

/-- The call puts its block into the DAG, whatever it then answers. -/
def Enters (engine : ConsensusEngine) (call : Surroundings × DagBlock) : Prop :=
  engine.admission call.1 call.2 = .ok () ∧ (engine.dag.addBlock call.2).isOk = true
  deriving Decidable

section Entering

variable {engine : ConsensusEngine} {call : Surroundings × DagBlock}

theorem accept_enters (enters : Enters engine call) :
    (accept engine call).dag = offerBlock engine.dag call.2 := by
  obtain ⟨admitted, added⟩ := enters
  unfold accept ConsensusEngine.acceptBlock
  rw [admitted, offer_ok added]
  cases engine.store with
  | none => rfl
  | some store =>
    -- The store is written after the DAG, which keeps the block either way.
    cases written : store.writeBlock call.1.fault (ConsensusEngine.storageBlock call.2) with
    | error reason => simp only [written]
    | ok store => simp only [written]

theorem accept_outside (outside : ¬ Enters engine call) :
    (accept engine call).dag = engine.dag := by
  unfold accept ConsensusEngine.acceptBlock
  cases admitted : engine.admission call.1 call.2 with
  | error reason => rfl
  | ok value =>
    cases added : engine.dag.addBlock call.2 with
    | error reason => rfl
    | ok dag => exact absurd ⟨admitted, by rw [added]; rfl⟩ outside

end Entering

def HeightsRise (dag : Dag) : Prop :=
  ∀ hash block parent, dag.getBlock hash = some block → HasParent dag block parent →
    parent.height < block.height

/-- The check that is left out, made on each block that enters. -/
def PassesHeight (engine : ConsensusEngine) (call : Surroundings × DagBlock) : Prop :=
  Enters engine call → ∀ parent ∈ engine.dag.getBlock call.2.parentHash,
    validateHeight call.2 parent.height = .ok ()
  deriving Decidable

variable {dag : Dag} {blocks : List DagBlock} {block : DagBlock}

section Edges

variable {after : Dag}

theorem get_block_elsewhere (added : dag.addBlock block = .ok after) {hash : Hash32}
    {stored : DagBlock} (found : dag.getBlock hash = some stored) :
    block.hash ≠ hash ∧ after.getBlock hash = some stored := by
  have elsewhere : block.hash ≠ hash := by
    intro same
    subst same
    obtain ⟨vertex, present, _⟩ := Option.map_eq_some_iff.mp found
    exact (add_block_ok added).1
      (Std.ExtTreeMap.isSome_getElem?_iff_mem.mp (by rw [present]; rfl))
  refine ⟨elsewhere, ?_⟩
  rw [Dag.get_block_add_block added, if_neg elsewhere]
  exact found

theorem heights_rise_added (mirrors : Mirrors dag blocks)
    (added : dag.addBlock block = .ok after) :
    HeightsRise after ↔ HeightsRise dag ∧ ∀ parent ∈ dag.getBlock block.parentHash,
      validateHeight block parent.height = .ok () := by
  have own : after.getBlock block.hash = some block := by
    rw [Dag.get_block_add_block added, if_pos rfl]
  constructor
  · intro rise
    constructor
    · rintro hash child parent stored ⟨plain, found⟩
      exact rise hash child parent (get_block_elsewhere added stored).2
        ⟨plain, (get_block_elsewhere added found).2⟩
    · intro parent found
      rw [validate_height_iff]
      intro plain
      exact rise block.hash block parent own ⟨plain, (get_block_elsewhere added found).2⟩
  · rintro ⟨rise, passes⟩ hash child parent stored ⟨plain, found⟩
    rw [Dag.get_block_add_block added] at stored
    split at stored
    · cases stored
      -- The new block is not its own parent, which was in the DAG before.
      have known := (add_block_ok added).2.1 plain
      have other : block.hash ≠ block.parentHash := by
        intro same
        exact (add_block_ok added).1 (same ▸ known)
      rw [Dag.get_block_add_block added, if_neg other] at found
      exact (validate_height_iff block parent.height).mp (passes parent found) plain
    · obtain ⟨parent', there⟩ := parent_stored mirrors stored plain
      obtain ⟨_, kept⟩ := get_block_elsewhere added there
      have same : parent' = parent := Option.some.inj (kept.symm.trans found)
      subst same
      exact rise hash child parent' stored ⟨plain, there⟩

end Edges

section Greatest

/-- The greatest height in the subtree of a block, which includes the block. -/
structure GreatestBelow (dag : Dag) (hash : Hash32) (height : UInt64) : Prop where
  attained : ∃ below ∈ subtree (childrenOf dag) hash, ∃ block,
    dag.getBlock below = some block ∧ block.height = height
  bounds : ∀ below ∈ subtree (childrenOf dag) hash, ∀ block,
    dag.getBlock below = some block → block.height ≤ height

variable {hash : Hash32}

theorem greatest_leaf (stored : dag.getBlock hash = some block)
    (leaf : childrenOf dag hash = []) : GreatestBelow dag hash block.height := by
  have alone : ∀ below ∈ subtree (childrenOf dag) hash, below = hash := by
    intro below inside
    rw [mem_subtree_cases, leaf] at inside
    rcases inside with same | ⟨child, member, _⟩
    · exact same
    · cases member
  refine ⟨⟨hash, mem_subtree_cases.mpr (Or.inl rfl), block, stored, rfl⟩, ?_⟩
  intro below inside other found
  rw [alone below inside, stored] at found
  cases found
  exact UInt64.le_refl _

/-- An inner block is lower than each child, so the greatest of the children's
heights stands for it as well. -/
theorem greatest_inner (mirrors : Mirrors dag blocks) (rise : HeightsRise dag)
    (stored : dag.getBlock hash = some block) {heights : List UInt64}
    (below : List.Forall₂ (GreatestBelow dag) (childrenOf dag hash) heights)
    {greatest : UInt64} (chosen : maxBy atMost heights = some greatest) :
    GreatestBelow dag hash greatest := by
  obtain ⟨member, above⟩ := (max_by_eq_some_iff at_most_linear _ _).mp chosen
  have inChild : ∀ child ∈ childrenOf dag hash, ∀ lower ∈ subtree (childrenOf dag) child,
      ∀ other, dag.getBlock lower = some other → other.height ≤ greatest := by
    intro child listed lower inside other found
    obtain ⟨height, counted, bound⟩ := forall₂_mem_left below listed
    have least := above height counted
    simp only [atMost, decide_eq_true_eq] at least
    exact UInt64.le_trans (bound.bounds lower inside other found) least
  obtain ⟨highest, listed, source⟩ := forall₂_mem_left below.flip member
  refine ⟨?_, ?_⟩
  · obtain ⟨lower, inside, reached⟩ := source.attained
    exact ⟨lower, mem_subtree_cases.mpr (Or.inr ⟨highest, listed, inside⟩), reached⟩
  · intro lower inside other found
    rcases mem_subtree_cases.mp inside with same | ⟨child, childListed, deeper⟩
    · subst same
      rw [stored] at found
      cases found
      obtain ⟨child, childStored, plain, parent⟩ := (mem_children_iff mirrors _ _).mp listed
      have higher := rise highest child block childStored ⟨plain, by rw [parent]; exact stored⟩
      have own := inChild highest listed highest (mem_subtree_cases.mpr (Or.inl rfl)) child
        childStored
      exact UInt64.le_of_lt (UInt64.lt_of_lt_of_le higher own)
    · exact inChild child childListed lower deeper other found

theorem max_height_greatest (mirrors : Mirrors dag blocks) (rise : HeightsRise dag)
    (stored : dag.getBlock hash = some block) :
    ∃ height, maxHeightInSubtree dag hash = some height ∧ GreatestBelow dag hash height := by
  obtain ⟨height, returned⟩ := score_returns mirrors.grounded .longestChain hash
  refine ⟨height, returned, ?_⟩
  revert block
  apply fold_rule (fun node value => ∀ block, dag.getBlock node = some block →
    GreatestBelow dag node value) (greatestHeight dag) _ (depthBound dag) hash height returned
  intro node heights children block stored
  obtain ⟨vertex, vertexFound, same⟩ := Option.map_eq_some_iff.mp stored
  subst same
  rw [greatestHeight, vertexFound]
  have below : List.Forall₂ (GreatestBelow dag) (childrenOf dag node) heights := by
    apply forall₂_imp_mem children
    intro child listed value fits
    obtain ⟨childBlock, childStored, _⟩ := (mem_children_iff mirrors _ _).mp listed
    exact fits childBlock childStored
  cases chosen : maxBy atMost heights with
  | none =>
    have empty := (max_by_eq_none_iff heights).mp chosen
    subst empty
    exact greatest_leaf stored (List.forall₂_nil_right_iff.mp below)
  | some greatest => exact greatest_inner mirrors rise stored below chosen

end Greatest

theorem accept_mirrors {engine : ConsensusEngine} {call : Surroundings × DagBlock}
    (mirrored : ∃ blocks, Mirrors engine.dag blocks) :
    ∃ blocks, Mirrors (accept engine call).dag blocks := by
  by_cases enters : Enters engine call
  · obtain ⟨blocks, mirrors⟩ := mirrored
    rw [accept_enters enters]
    exact ⟨blocks ++ [call.2], mirrors.step (offer_ok enters.2)⟩
  · rw [accept_outside enters]
    exact mirrored

theorem accept_heights_rise {engine : ConsensusEngine} {call : Surroundings × DagBlock}
    (mirrored : ∃ blocks, Mirrors engine.dag blocks) :
    HeightsRise (accept engine call).dag ↔
      HeightsRise engine.dag ∧ PassesHeight engine call := by
  obtain ⟨blocks, mirrors⟩ := mirrored
  by_cases enters : Enters engine call
  · rw [accept_enters enters, heights_rise_added mirrors (offer_ok enters.2)]
    simp only [PassesHeight, enters, forall_const]
  · rw [accept_outside enters]
    simp only [PassesHeight, enters, false_imp_iff, and_true]

/-- From an engine with an empty DAG, heights rise along every edge exactly if each
block that entered would have passed the height check; and then the longest-chain
rule computes the greatest height below each block. -/
theorem heights_rise_iff (engine : ConsensusEngine) (calls : List (Surroundings × DagBlock))
    (empty : engine.dag = Dag.new) :
    (HeightsRise (acceptAll engine calls).1.dag ↔
      AllMeet accept PassesHeight engine calls) ∧
    (HeightsRise (acceptAll engine calls).1.dag →
      ∀ hash block, (acceptAll engine calls).1.dag.getBlock hash = some block →
        ∃ height, maxHeightInSubtree (acceptAll engine calls).1.dag hash = some height ∧
          GreatestBelow (acceptAll engine calls).1.dag hash height) := by
  have start : ∃ blocks, Mirrors engine.dag blocks := ⟨[], by rw [empty]; exact Mirrors.start⟩
  have low : HeightsRise engine.dag := by
    rw [empty]
    intro hash block parent stored
    simp [Dag.getBlock, Dag.new] at stored
  rw [accept_all_eq]
  constructor
  · rw [end_holds_iff (fun (engine : ConsensusEngine) _ => ∃ blocks, Mirrors engine.dag blocks)
      (fun engine => HeightsRise engine.dag) (fun _ _ _ => accept_mirrors)
      (fun _ _ _ => accept_heights_rise) engine calls start]
    exact and_iff_right low
  · intro rise hash block stored
    obtain ⟨blocks, mirrors⟩ := run_keeps (fun engine : ConsensusEngine =>
      ∃ blocks, Mirrors engine.dag blocks) engine calls start (fun _ _ => accept_mirrors)
    exact max_height_greatest mirrors rise stored

def declared (hash parentHash : Hash32) (height : UInt64) : Surroundings × DagBlock :=
  (calm, { sampleBlock hash parentHash none with height })

def twoDeclared (genesis child : UInt64) : List (Surroundings × DagBlock) :=
  [declared firstHash zeroHash genesis, declared secondHash firstHash child]

theorem rising_pair_rises : HeightsRise (acceptAll soleProposer (twoDeclared 0 1)).1.dag :=
  (heights_rise_iff soleProposer (twoDeclared 0 1) rfl).1.mpr (by decide +kernel)

/-- A child of height 0 below a genesis block of height 5 is accepted, and the
longest-chain rule then sees height 0 below the genesis. -/
theorem lower_child_accepted :
    ∃ (engine : ConsensusEngine) (calls : List (Surroundings × DagBlock)) (hash : Hash32),
      engine.dag = Dag.new ∧
      (acceptAll engine calls).2.all (·.answer.isOk) = true ∧
      ¬ HeightsRise (acceptAll engine calls).1.dag ∧
      (∃ block, (acceptAll engine calls).1.dag.getBlock hash = some block) ∧
      ∀ height, maxHeightInSubtree (acceptAll engine calls).1.dag hash = some height →
        ¬ GreatestBelow (acceptAll engine calls).1.dag hash height := by
  have root : (acceptAll soleProposer (twoDeclared 5 0)).1.dag.getBlock firstHash =
      some (declared firstHash zeroHash 5).2 := by decide +kernel
  have child : (acceptAll soleProposer (twoDeclared 5 0)).1.dag.getBlock secondHash =
      some (declared secondHash firstHash 0).2 := by decide +kernel
  refine ⟨soleProposer, twoDeclared 5 0, firstHash, rfl, by decide +kernel, ?_, ⟨_, root⟩, ?_⟩
  · intro rise
    exact absurd (rise secondHash _ _ child ⟨by decide, root⟩) (by decide)
  · intro height returned greatest
    have zero : maxHeightInSubtree (acceptAll soleProposer (twoDeclared 5 0)).1.dag firstHash =
        some 0 := by decide +kernel
    have same : height = 0 := Option.some.inj (returned.symm.trans zero)
    subst same
    exact absurd (greatest.bounds firstHash (mem_subtree_cases.mpr (Or.inl rfl)) _ root)
      (by decide)

end CeruleanLedger.BlockHeights

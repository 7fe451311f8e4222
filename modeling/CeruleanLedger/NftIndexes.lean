import CeruleanLedger.ContractSteps

/-!
The four structures that an NFT contract keeps of its tokens: the owner of each token, the list
of all tokens, the set of tokens of each owner and its size. The methods decide by the owners;
the other three are written beside them, with updates that are skipped where an entry is
missing.
-/

namespace CeruleanLedger.NftIndexes

open SmartContracts ContractSteps GuardedRun InPlace OrderedMap IterationOrder

section Check

abbrev Holding := String × Std.ExtTreeSet UInt64

structure IterationOrders where
  tokens : Arrangement UInt64
  balances : Arrangement (String × UInt64)
  holdings : Arrangement Holding

variable (orders : IterationOrders) (contract : SmartContract)

def checkHolding (holding : Holding) (tokenId : UInt64) : Except String Unit :=
  match contract.state.tokenOwners[tokenId]? with
  | some tokenOwner =>
    refuseIf (tokenOwner ≠ holding.1) ("Token " ++ toString tokenId ++ " owned by " ++
      tokenOwner ++ " but in owner_to_tokens for " ++ holding.1)
  | none =>
    .error ("Token " ++ toString tokenId ++ " in owner_to_tokens for " ++ holding.1 ++
      " but has no owner")

def checkBalance (entry : String × UInt64) : Except String Unit :=
  let actualCount :=
    UInt64.ofNat ((contract.state.ownerToTokens[entry.1]?.map Std.ExtTreeSet.size).getD 0)
  refuseIf (entry.2 ≠ actualCount) ("Balance mismatch for owner " ++ entry.1 ++ ": balance=" ++
    toString entry.2 ++ ", actual tokens=" ++ toString actualCount)

def verifyNftIntegrity : Except String Unit := do
  (orders.tokens.arrange contract.state.tokenOwners.keys).forM fun tokenId =>
    refuseIf (tokenId ∉ contract.state.tokenIndex)
      ("Token " ++ toString tokenId ++ " in owners but not in index")
  contract.state.tokenIndex.forM fun tokenId =>
    refuseIf (¬ contract.state.tokenOwners.contains tokenId)
      ("Token " ++ toString tokenId ++ " in index but has no owner")
  (orders.balances.arrange contract.state.nftBalances.toList).forM (checkBalance contract)
  (orders.holdings.arrange contract.state.ownerToTokens.toList).forM fun holding =>
    (orders.tokens.arrange holding.2.toList).forM (checkHolding contract holding)
  let totalByOwners := UInt64.ofNat contract.state.tokenOwners.size
  let totalByIndex := UInt64.ofNat contract.state.tokenIndex.length
  refuseIf (totalByOwners ≠ totalByIndex) ("Total supply mismatch: token_owners=" ++
    toString totalByOwners ++ ", token_index=" ++ toString totalByIndex)

end Check

def tokensOf (owned : Std.ExtTreeMap String (Std.ExtTreeSet UInt64)) (owner : String) :
    Std.ExtTreeSet UInt64 :=
  owned[owner]?.getD ∅

/-- The sets are those of the owners, none of them is stored empty, and the
balances are their sizes. -/
structure Agree (owners : Std.ExtTreeMap UInt64 String)
    (sets : Std.ExtTreeMap String (Std.ExtTreeSet UInt64))
    (balances : Std.ExtTreeMap String UInt64) : Prop where
  owned : ∀ owner tokenId, tokenId ∈ tokensOf sets owner ↔ owners[tokenId]? = some owner
  stored : ∀ (owner : String) (tokens : Std.ExtTreeSet UInt64),
    sets[owner]? = some tokens → tokens ≠ ∅
  counted : ∀ owner : String, (balances[owner]?.getD 0).toNat = (tokensOf sets owner).size

structure Indexed (state : ContractState) : Prop where
  distinct : state.tokenIndex.Nodup
  listed : ∀ tokenId, tokenId ∈ state.tokenIndex ↔ tokenId ∈ state.tokenOwners
  agree : Agree state.tokenOwners state.ownerToTokens state.nftBalances
  limited : state.tokenIndex.length ≤ maxTokensPerContract

section Sets

variable (state : ContractState) (owner other : String) (tokenId : UInt64)

theorem tokens_of_add (owned : Std.ExtTreeMap String (Std.ExtTreeSet UInt64)) :
    tokensOf (ContractState.addOwned owned owner tokenId) other =
      if owner = other then (tokensOf owned other).insert tokenId else tokensOf owned other := by
  unfold tokensOf ContractState.addOwned
  rw [get_insert]
  split
  · next same => rw [Option.getD_some, same]
  · rfl

theorem tokens_of_drop :
    tokensOf (state.dropOwned owner tokenId) other =
      if owner = other then (tokensOf state.ownerToTokens other).erase tokenId
      else tokensOf state.ownerToTokens other := by
  unfold tokensOf ContractState.dropOwned
  cases found : state.ownerToTokens[owner]? with
  | none =>
    dsimp only
    split
    · next same =>
      rw [← same, found]
      rfl
    · rfl
  | some tokens =>
    dsimp only
    split
    · next emptied =>
      rw [get_erase]
      split
      · next same =>
        rw [← same, found]
        exact (Std.ExtTreeSet.isEmpty_iff.mp emptied).symm
      · rfl
    · rw [get_insert]
      split
      · next same => rw [← same, found]; rfl
      · rfl

theorem drop_owned_stored (stored : ∀ (owner : String) (tokens : Std.ExtTreeSet UInt64),
      state.ownerToTokens[owner]? = some tokens → tokens ≠ ∅)
    (tokens : Std.ExtTreeSet UInt64)
    (found : (state.dropOwned owner tokenId)[other]? = some tokens) : tokens ≠ ∅ := by
  unfold ContractState.dropOwned at found
  cases kept : state.ownerToTokens[owner]? with
  | none =>
    rw [kept] at found
    exact stored other tokens found
  | some before =>
    rw [kept] at found
    dsimp only at found
    split at found
    · rw [get_erase] at found
      split at found
      · cases found
      · exact stored other tokens found
    · next left =>
      rw [get_insert] at found
      split at found
      · cases found
        exact fun emptied => left (Std.ExtTreeSet.isEmpty_iff.mpr emptied)
      · exact stored other tokens found

theorem drop_balance :
    ((state.dropNftBalance owner)[other]?.getD 0).toNat =
      (state.nftBalance other).toNat - if owner = other then 1 else 0 := by
  unfold ContractState.dropNftBalance
  split
  · next some =>
    rw [get_insert]
    split
    · next same =>
      have least : (1 : UInt64) ≤ state.nftBalance owner :=
        UInt64.le_iff_toNat_le.mpr (UInt64.lt_iff_toNat_lt.mp some)
      rw [Option.getD_some, UInt64.toNat_sub_of_le _ _ least, same]
      rfl
    · rfl
  · next none =>
    have zero : (state.nftBalance owner).toNat = 0 :=
      Nat.le_zero.mp (UInt64.le_iff_toNat_le.mp (UInt64.not_lt.mp none))
    split
    · next same =>
      rw [← same, zero]
      exact zero
    · rfl

end Sets

section Updates

variable {owners : Std.ExtTreeMap UInt64 String}
  {sets : Std.ExtTreeMap String (Std.ExtTreeSet UInt64)}
  {balances : Std.ExtTreeMap String UInt64} {tokenId : UInt64}

theorem add_owned_stored (stored : ∀ (owner : String) (tokens : Std.ExtTreeSet UInt64),
      sets[owner]? = some tokens → tokens ≠ ∅)
    (toAddr : String) (tokenId : UInt64) (owner : String) (tokens : Std.ExtTreeSet UInt64)
    (found : (ContractState.addOwned sets toAddr tokenId)[owner]? = some tokens) :
    tokens ≠ ∅ := by
  unfold ContractState.addOwned at found
  rw [get_insert] at found
  split at found
  · cases found
    intro emptied
    have inside : tokenId ∈ (sets[toAddr]?.getD ∅).insert tokenId :=
      Std.ExtTreeSet.mem_insert_self
    rw [emptied] at inside
    exact Std.ExtTreeSet.not_mem_empty inside
  · exact stored owner tokens found

theorem agree_give (agree : Agree owners sets balances) (fresh : owners[tokenId]? = none)
    (toAddr : String) (room : (tokensOf sets toAddr).size + 1 < 2 ^ 64) :
    Agree (owners.insert tokenId toAddr) (ContractState.addOwned sets toAddr tokenId)
      (balances.insert toAddr (balances[toAddr]?.getD 0 + 1)) := by
  have outside : ∀ owner, tokenId ∉ tokensOf sets owner := by
    intro owner inside
    have owner := (agree.owned owner tokenId).mp inside
    rw [fresh] at owner
    cases owner
  constructor
  · intro owner other
    rw [tokens_of_add, get_insert]
    by_cases same : tokenId = other
    · subst same
      rw [if_pos rfl]
      by_cases own : toAddr = owner
      · subst own
        simp
      · simp [own, outside owner]
    · rw [if_neg same, ← agree.owned owner other]
      split
      · simp [same]
      · rfl
  · exact fun owner tokens kept => add_owned_stored agree.stored toAddr tokenId owner tokens kept
  · intro owner
    rw [tokens_of_add, get_insert]
    split
    · next own =>
      subst own
      have before := agree.counted toAddr
      rw [Option.getD_some, Std.ExtTreeSet.size_insert,
        if_neg fun inside => outside toAddr (Std.ExtTreeSet.mem_iff_contains.mpr inside),
        UInt64.toNat_add, before]
      exact Nat.mod_eq_of_lt room
    · exact agree.counted owner

theorem agree_take {state : ContractState} {fromAddr : String}
    (agree : Agree state.tokenOwners state.ownerToTokens state.nftBalances)
    (found : state.tokenOwners[tokenId]? = some fromAddr) :
    Agree (state.tokenOwners.erase tokenId) (state.dropOwned fromAddr tokenId)
      (state.dropNftBalance fromAddr) := by
  constructor
  · intro owner other
    rw [tokens_of_drop, get_erase]
    by_cases same : tokenId = other
    · subst same
      rw [if_pos rfl]
      by_cases own : fromAddr = owner
      · simp [own]
      · rw [if_neg own, agree.owned owner tokenId, found]
        simp [own]
    · rw [if_neg same, ← agree.owned owner other]
      split
      · simp [same]
      · rfl
  · exact fun owner tokens kept =>
      drop_owned_stored state fromAddr owner tokenId agree.stored tokens kept
  · intro owner
    have before := agree.counted owner
    rw [drop_balance, tokens_of_drop]
    split
    · next own =>
      subst own
      have inside := (agree.owned fromAddr tokenId).mpr found
      rw [Std.ExtTreeSet.size_erase, if_pos (Std.ExtTreeSet.mem_iff_contains.mp inside),
        ← before]
      rfl
    · exact before

end Updates

section Steps

variable {state : ContractState} {tokenId : UInt64}

theorem size_le_index (indexed : Indexed state) (owner : String) :
    (tokensOf state.ownerToTokens owner).size ≤ state.tokenIndex.length := by
  rw [← Std.ExtTreeSet.length_toList]
  apply List.Subperm.length_le
  apply List.Nodup.subperm
  · exact Std.ExtTreeSet.distinct_toList.imp fun apart same =>
      apart (Std.LawfulEqCmp.compare_eq_iff_eq.mpr same)
  · intro tokenId inside
    have owner := (indexed.agree.owned owner tokenId).mp (Std.ExtTreeSet.mem_toList.mp inside)
    rw [indexed.listed, Std.ExtTreeMap.mem_iff_isSome_getElem?, owner]
    rfl

theorem room_for (indexed : Indexed state) (owner : String) :
    (tokensOf state.ownerToTokens owner).size + 1 < 2 ^ 64 := by
  have within := (size_le_index indexed owner).trans indexed.limited
  unfold maxTokensPerContract at within
  omega

theorem add_token_indexed (indexed : Indexed state) (fresh : state.tokenOwners[tokenId]? = none)
    (below : state.tokenIndex.length < maxTokensPerContract) (toAddr tokenUri : String) :
    Indexed (addedToken state toAddr tokenId tokenUri) := by
  have unlisted : tokenId ∉ state.tokenIndex := by
    rw [indexed.listed, Std.ExtTreeMap.mem_iff_isSome_getElem?, fresh]
    exact Bool.false_ne_true
  constructor
  · refine List.nodup_append.mpr ⟨indexed.distinct, List.nodup_singleton tokenId, ?_⟩
    rintro listed inside _ (_ | ⟨_, ⟨⟩⟩) rfl
    exact unlisted inside
  · intro other
    dsimp only [addedToken]
    rw [List.mem_append, indexed.listed other, Std.ExtTreeMap.mem_insert,
      Std.LawfulEqCmp.compare_eq_iff_eq, List.mem_singleton, or_comm, eq_comm]
  · exact agree_give indexed.agree fresh toAddr (room_for indexed toAddr)
  · dsimp only [addedToken]
    rw [List.length_append]
    exact below

theorem move_token_indexed (indexed : Indexed state) {fromAddr toAddr : String}
    (apart : fromAddr ≠ toAddr) (owned : state.tokenOwners[tokenId]? = some fromAddr) :
    Indexed (movedToken state fromAddr toAddr tokenId) := by
  have known : tokenId ∈ state.tokenOwners := by
    rw [Std.ExtTreeMap.mem_iff_isSome_getElem?, owned]
    rfl
  constructor
  · exact indexed.distinct
  · intro other
    dsimp only [movedToken]
    rw [indexed.listed other, Std.ExtTreeMap.mem_insert, Std.LawfulEqCmp.compare_eq_iff_eq]
    refine ⟨.inr, ?_⟩
    rintro (rfl | inside)
    · exact known
    · exact inside
  · -- The token is taken from one owner and given to the other.
    have taken := agree_take indexed.agree owned
    have untaken : tokensOf (state.dropOwned fromAddr tokenId) toAddr =
        tokensOf state.ownerToTokens toAddr := by
      rw [tokens_of_drop, if_neg apart]
    have replaced : (state.tokenOwners.erase tokenId).insert tokenId toAddr =
        state.tokenOwners.insert tokenId toAddr := by
      apply Std.ExtTreeMap.ext_getElem?
      intro other
      rw [get_insert, get_insert, get_erase]
      split <;> rfl
    have erased : (state.tokenOwners.erase tokenId)[tokenId]? = none := by
      rw [get_erase, if_pos rfl]
    have given := agree_give taken erased toAddr (untaken ▸ room_for indexed toAddr)
    rwa [replaced] at given
  · exact indexed.limited

theorem remove_token_indexed (indexed : Indexed state) {owner : String}
    (owned : state.tokenOwners[tokenId]? = some owner) :
    Indexed (removedToken state owner tokenId) := by
  constructor
  · exact indexed.distinct.erase tokenId
  · intro other
    dsimp only [removedToken]
    rw [indexed.distinct.mem_erase_iff, indexed.listed other, Std.ExtTreeMap.mem_erase, Ne,
      Ne, Std.LawfulEqCmp.compare_eq_iff_eq, eq_comm]
  · exact agree_take indexed.agree owned
  · exact (List.length_erase_le).trans indexed.limited

theorem Indexed.same {other : ContractState} (indexed : Indexed state)
    (owners : other.tokenOwners = state.tokenOwners)
    (sets : other.ownerToTokens = state.ownerToTokens)
    (balances : other.nftBalances = state.nftBalances)
    (index : other.tokenIndex = state.tokenIndex) : Indexed other := by
  obtain ⟨distinct, listed, agree, limited⟩ := indexed
  constructor
  · rwa [index]
  · rwa [index, owners]
  · rwa [owners, sets, balances]
  · rwa [index]

theorem step_indexed (platform : Platform) (contract : SmartContract) (call : Call)
    (indexed : Indexed contract.state) : Indexed (step platform contract call).state := by
  rcases step_cases platform contract call with ⟨_, same⟩ | ⟨_, state, outcome, done⟩
  · rwa [same]
  · rw [done]
    obtain ⟨env, function, caller⟩ := call
    change Indexed state
    cases outcome with
    | @mintedNft toAddr tokenUri tokenId caller metadata fresh room =>
      exact (add_token_indexed indexed fresh room toAddr tokenUri).same rfl rfl rfl rfl
    | transferredNft metadata apart owned allowed =>
      exact (move_token_indexed indexed apart owned).same rfl rfl rfl rfl
    | transferredFromNft metadata apart owned allowed =>
      exact (move_token_indexed indexed apart owned).same rfl rfl rfl rfl
    | burnedNft metadata owned =>
      exact (remove_token_indexed indexed owned).same rfl rfl rfl rfl
    | _ => exact indexed.same rfl rfl rfl rfl

end Steps

section Integrity

theorem for_each_ok {Item : Type} {items : List Item} {check : Item → Except String Unit}
    (passes : ∀ item ∈ items, check item = .ok ()) : items.forM check = .ok () := by
  induction items with
  | nil => rfl
  | cons item rest ih =>
    rw [List.forM, passes item List.mem_cons_self]
    exact ih fun other member => passes other (List.mem_cons_of_mem _ member)

variable {contract : SmartContract}

theorem check_balance_ok (indexed : Indexed contract.state) (entry : String × UInt64)
    (member : entry ∈ contract.state.nftBalances.toList) :
    checkBalance contract entry = .ok () := by
  have balance := Std.ExtTreeMap.mem_toList_iff_getElem?_eq_some.mp member
  have counted := indexed.agree.counted entry.1
  rw [balance, Option.getD_some, tokensOf] at counted
  refine refuse_ok_iff.mpr (not_not.mpr ?_)
  cases found : contract.state.ownerToTokens[entry.1]? with
  | none =>
    rw [found] at counted
    exact UInt64.toNat_inj.mp counted
  | some tokens =>
    rw [found, Option.getD_some] at counted
    rw [Option.map_some, Option.getD_some, ← counted, UInt64.ofNat_toNat]

theorem check_holding_ok (indexed : Indexed contract.state) (holding : Holding)
    (member : holding ∈ contract.state.ownerToTokens.toList) (tokenId : UInt64)
    (inside : tokenId ∈ holding.2.toList) : checkHolding contract holding tokenId = .ok () := by
  have stored := Std.ExtTreeMap.mem_toList_iff_getElem?_eq_some.mp member
  have owned : contract.state.tokenOwners[tokenId]? = some holding.1 := by
    rw [← indexed.agree.owned, tokensOf, stored]
    exact Std.ExtTreeSet.mem_toList.mp inside
  unfold checkHolding
  rw [owned]
  exact refuse_ok_iff.mpr (not_not.mpr rfl)

theorem owners_size (indexed : Indexed contract.state) :
    contract.state.tokenOwners.size = contract.state.tokenIndex.length := by
  rw [← Std.ExtTreeMap.length_keys]
  apply List.Perm.length_eq
  rw [List.perm_ext_iff_of_nodup Std.ExtTreeMap.nodup_keys indexed.distinct]
  intro tokenId
  rw [Std.ExtTreeMap.mem_keys, indexed.listed]

theorem integrity_ok (orders : IterationOrders) (indexed : Indexed contract.state) :
    verifyNftIntegrity orders contract = .ok () := by
  unfold verifyNftIntegrity
  rw [for_each_ok, for_each_ok, for_each_ok, for_each_ok]
  · rw [owners_size indexed]
    exact refuse_ok_iff.mpr (not_not.mpr rfl)
  · intro holding member
    apply for_each_ok
    intro tokenId inside
    rw [Arrangement.mem_arrange] at member inside
    exact check_holding_ok indexed holding member tokenId inside
  · intro entry member
    rw [Arrangement.mem_arrange] at member
    exact check_balance_ok indexed entry member
  · intro tokenId member
    have known := (indexed.listed tokenId).mp member
    exact refuse_ok_iff.mpr (not_not.mpr (Std.ExtTreeMap.mem_iff_contains.mp known))
  · intro tokenId member
    rw [Arrangement.mem_arrange, Std.ExtTreeMap.mem_keys] at member
    exact refuse_ok_iff.mpr (not_not.mpr ((indexed.listed tokenId).mpr member))

end Integrity

theorem new_indexed : Indexed .new := by
  constructor
  · exact List.nodup_nil
  · intro tokenId
    exact iff_of_false List.not_mem_nil Std.ExtTreeMap.not_mem_empty
  · constructor
    · exact fun owner tokenId => iff_of_false Std.ExtTreeSet.not_mem_empty nofun
    · exact nofun
    · exact fun owner => rfl
  · exact Nat.zero_le _

/-- Whatever is called on a new contract, the list has each token with an owner
once, the sets are those of the owners without an empty one, the balances are
their sizes, and the contract's own check accepts. -/
theorem nft_indexes_consistent (platform : Platform) (env : CallEnv)
    (uuid owner contractType name : String) (symbol : Option String)
    (totalSupply : Option UInt64) (decimals : Option UInt8) (calls : List Call)
    (orders : IterationOrders) :
    let contract := calls.foldl (step platform)
      (.new platform env uuid owner contractType name symbol totalSupply decimals)
    contract.state.tokenIndex.Nodup ∧
      (∀ tokenId, tokenId ∈ contract.state.tokenIndex ↔ tokenId ∈ contract.state.tokenOwners) ∧
      (∀ holder tokenId, tokenId ∈ tokensOf contract.state.ownerToTokens holder ↔
        contract.state.tokenOwners[tokenId]? = some holder) ∧
      (∀ (holder : String) (tokens : Std.ExtTreeSet UInt64),
        contract.state.ownerToTokens[holder]? = some tokens → tokens ≠ ∅) ∧
      (∀ holder, (contract.state.nftBalance holder).toNat =
        (tokensOf contract.state.ownerToTokens holder).size) ∧
      verifyNftIntegrity orders contract = .ok () := by
  intro contract
  have indexed : Indexed contract.state :=
    run_keeps (fun contract : SmartContract => Indexed contract.state) _ calls new_indexed
      (step_indexed platform)
  exact ⟨indexed.distinct, indexed.listed, indexed.agree.owned, indexed.agree.stored,
    indexed.agree.counted, integrity_ok orders indexed⟩

end CeruleanLedger.NftIndexes

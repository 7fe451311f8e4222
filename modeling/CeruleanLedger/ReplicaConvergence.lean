import CeruleanLedger.ContractReplication
import CeruleanLedger.ContractSteps
import CeruleanLedger.LastWriterWins
import CeruleanLedger.PaddedNumerals

/-!
Convergence of the copies of a contract. At one address a node is a register that keeps the
contract with the greatest pair of time and sequence number; a message acts on it like the one
contract that the message alone would leave. An update of a wrong owner with the same time and
sequence number takes the receipt of the right one.
-/

namespace CeruleanLedger.ReplicaConvergence

open SmartContracts ContractReplication ContractSteps GuardedRun OrderedMap LastWriterWins

section Statement

def stamp (contract : SmartContract) : ℕ ×ₗ ℕ :=
  toLex (contract.updatedAt.toNat, contract.updateSequence.toNat)

def offers : Message → List SmartContract
  | .contracts contracts => contracts
  | .updateContract contract => [contract]

def batch (address owner : String) (message : Message) : List SmartContract :=
  (offers message).filter fun contract => contract.address = address ∧ contract.owner = owner

def proposal (address : String) (contract : SmartContract) (message : Message) : SmartContract :=
  latest stamp contract (batch address contract.owner message)

variable (platform : Platform)

def Sound (env : CallEnv) (message : Message) : Prop :=
  (∀ contract ∈ offers message, contract.validateIntegrity platform env) ∧
    ∀ contract, message = .updateContract contract →
      (contractJson platform env contract).utf8ByteSize ≤ maxContractSize

def Admitted (node : Node) (delivery : Delivery) : Prop :=
  Sound platform delivery.env delivery.message ∧
    ∀ contract, delivery.message = .updateContract contract → ∀ peer ∈ delivery.sourcePeer,
      (rateLimit updatesPerMinute node.rateLimits peer delivery.limitTime).isSome

/-- A node that starts with the contract processes the messages, all of them and no
others, in some order and with some repetitions. -/
structure Processes (address : String) (contract : SmartContract) (messages : List Message)
    (node : Node) (run : List Delivery) : Prop where
  start : node.contractManager.getContract address = some contract
  unseen : node.recentReceipts = ∅
  complete : ∀ message, message ∈ run.map Delivery.message ↔ message ∈ messages
  admitted : AllMeet (processMessage platform) (Admitted platform) node run

def finalContract (address : String) (node : Node) (run : List Delivery) : Option SmartContract :=
  (run.foldl (processMessage platform) node).contractManager.getContract address

def Converges (address : String) (contract : SmartContract) (messages : List Message) : Prop :=
  ∀ left right leftRun rightRun, Processes platform address contract messages left leftRun →
    Processes platform address contract messages right rightRun →
    finalContract platform address left leftRun = finalContract platform address right rightRun

def Newest (address : String) (contract : SmartContract) (messages : List Message)
    (message : Message) : Prop :=
  message ∈ messages ∧
    IsTop stamp contract (messages.map (proposal address contract))
      (proposal address contract message)

structure Decided (address : String) (contract : SmartContract) (messages : List Message) :
    Prop where
  agree : Agree stamp contract (messages.map (proposal address contract))
  /-- The newest contract comes in a list too, or has its time and sequence number alone. -/
  heard : ∀ newest, Newest address contract messages (.updateContract newest) →
    (∃ contracts, Newest address contract messages (.contracts contracts)) ∨
      ∀ other, .updateContract other ∈ messages → receiptKey other = receiptKey newest →
        other.owner = contract.owner

end Statement

variable {platform : Platform} {address owner : String} {node : Node} {env : CallEnv}
variable {contract current : SmartContract} {messages : List Message} {run : List Delivery}

section Register

theorem should_update_iff (existing contract : SmartContract) :
    shouldUpdate existing contract = true ↔ stamp existing < stamp contract := by
  rw [shouldUpdate, stamp, stamp, Prod.Lex.toLex_lt_toLex, Bool.or_eq_true, Bool.and_eq_true,
    decide_eq_true_iff, decide_eq_true_iff, decide_eq_true_iff, UInt64.lt_iff_toNat_lt,
    UInt64.lt_iff_toNat_lt, ← UInt64.toNat_inj, eq_comm]

variable {manager : ContractManager}

/-- Another contract leaves the one at the address alone. -/
theorem merge_elsewhere (elsewhere : contract.address ≠ address) :
    (merge manager contract).getContract address = manager.getContract address := by
  have inserted : (manager.contracts.insert contract.address contract)[address]? =
      manager.contracts[address]? := (get_insert _ _ _ _).trans (if_neg elsewhere)
  unfold merge
  split
  · unfold ContractManager.deployContract
    split_ifs
    · rfl
    · exact inserted
  · split_ifs
    · rfl
    · exact inserted
    · rfl

theorem merge_here (found : manager.getContract contract.address = some current)
    (same : contract.owner = current.owner) :
    (merge manager contract).getContract contract.address =
      some (accept stamp current contract) := by
  rw [merge, found]
  dsimp only
  rw [if_neg (not_not.mpr same)]
  split
  · next newer =>
    rw [accept_of_lt ((should_update_iff current contract).mp newer)]
    exact (get_insert _ _ _ _).trans (if_pos rfl)
  · next older =>
    rw [accept_of_le (not_lt.mp fun newer => older ((should_update_iff _ _).mpr newer))]
    exact found

theorem latest_owner (contracts : List SmartContract) (owned : current.owner = owner)
    (all : ∀ contract ∈ contracts, contract.owner = owner) :
    (latest stamp current contracts).owner = owner := by
  rcases latest_cases stamp current contracts with same | top
  · rw [same, owned]
  · exact all _ top.offered

theorem receive_all (contracts : List SmartContract)
    (found : manager.getContract address = some current) (owned : current.owner = owner)
    (valid : ∀ contract ∈ contracts, contract.validateIntegrity platform env) :
    (contracts.foldl (receive platform env) manager).getContract address =
      some (latest stamp current (contracts.filter fun contract =>
        contract.address = address ∧ contract.owner = owner)) := by
  induction contracts generalizing manager current with
  | nil => exact found
  | cons contract rest ih =>
    have others : ∀ contract ∈ rest, contract.validateIntegrity platform env :=
      fun contract member => valid contract (List.mem_cons_of_mem _ member)
    rw [List.foldl_cons, receive, if_pos (valid contract List.mem_cons_self)]
    by_cases here : contract.address = address
    · subst here
      by_cases same : contract.owner = owner
      · have sameOwner := same.trans owned.symm
        have kept : (accept stamp current contract).owner = owner :=
          latest_owner [contract] owned (by simpa using same)
        rw [List.filter_cons_of_pos (by simp [same]), latest_cons]
        exact ih (merge_here found sameOwner) kept others
      · rw [List.filter_cons_of_neg (by simp [same])]
        refine ih ?_ owned others
        rw [merge, found]
        dsimp only
        rw [if_pos (owned ▸ same), found]
    · rw [List.filter_cons_of_neg (by simp [here])]
      exact ih ((merge_elsewhere here).trans found) owned others

end Register

theorem update_received {peer : String} {limitTime receiptTime : UInt64} {rateLimits : RateLimits}
    (fits : (contractJson platform env contract).utf8ByteSize ≤ maxContractSize)
    (passed : rateLimit updatesPerMinute node.rateLimits peer limitTime = some rateLimits)
    (fresh : recentlyReceived (keptReceipts node.recentReceipts receiptTime)
      (receiptKey contract) peer receiptTime ≠ true) :
    processMessage platform node
        ⟨.updateContract contract, some peer, limitTime, receiptTime, env⟩ =
      ⟨receive platform env node.contractManager contract, rateLimits,
        (keptReceipts node.recentReceipts receiptTime).insert (receiptKey contract)
          (receiptTime, peer)⟩ := by
  simp only [processMessage, onUpdateContract, passed]
  rw [if_neg (not_lt.mpr fits), if_neg fresh]

def hears (node : Node) (delivery : Delivery) : Bool :=
  match delivery.message, delivery.sourcePeer with
  | .updateContract contract, some peer =>
    !recentlyReceived (keptReceipts node.recentReceipts delivery.receiptTime)
      (receiptKey contract) peer delivery.receiptTime
  | _, _ => true

variable (platform) in
def heard : Node → List Delivery → List Message
  | _, [] => []
  | node, delivery :: rest =>
    (if hears node delivery then [delivery.message] else []) ++
      heard (processMessage platform node delivery) rest

/-- One message acts on the register at the address like its batch, or not at all. -/
theorem process_get (delivery : Delivery)
    (found : node.contractManager.getContract address = some current)
    (owned : current.owner = owner) (admitted : Admitted platform node delivery) :
    (processMessage platform node delivery).contractManager.getContract address =
      some (latest stamp current
        (if hears node delivery then batch address owner delivery.message else [])) := by
  obtain ⟨message, sourcePeer, limitTime, receiptTime, env⟩ := delivery
  obtain ⟨⟨valid, small⟩, limited⟩ := admitted
  cases message with
  | contracts contracts => exact receive_all contracts found owned valid
  | updateContract contract =>
    have received := receive_all [contract] found owned valid
    have fits := small contract rfl
    cases sourcePeer with
    | none =>
      simp only [processMessage, onUpdateContract]
      rw [if_neg (not_lt.mpr fits)]
      exact received
    | some peer =>
      obtain ⟨limits, passed⟩ := Option.isSome_iff_exists.mp (limited contract rfl peer rfl)
      by_cases recent : recentlyReceived (keptReceipts node.recentReceipts receiptTime)
          (receiptKey contract) peer receiptTime
      · simp only [processMessage, onUpdateContract, passed]
        rw [if_neg (not_lt.mpr fits), if_pos recent, if_neg (by simp [hears, recent])]
        exact found
      · rw [update_received fits passed recent, if_pos (by simp [hears, recent])]
        exact received

theorem run_get (run : List Delivery)
    (found : node.contractManager.getContract address = some current)
    (owned : current.owner = owner)
    (admitted : AllMeet (processMessage platform) (Admitted platform) node run) :
    finalContract platform address node run =
      some (latest stamp current
        ((heard platform node run).map (batch address owner)).flatten) := by
  induction run generalizing node current with
  | nil => exact found
  | cons delivery rest ih =>
    have next := process_get delivery found owned admitted.1
    rw [finalContract, List.foldl_cons, heard]
    split at next
    · next hit =>
      have kept := latest_owner (batch address owner delivery.message) owned fun contract member =>
        (of_decide_eq_true (List.mem_filter.mp member).2).2
      rw [if_pos hit, List.map_append, List.flatten_append, latest_append]
      simp only [List.map_cons, List.map_nil, List.flatten_cons, List.flatten_nil,
        List.append_nil]
      exact ih next kept admitted.2
    · next missed =>
      rw [if_neg missed]
      exact ih next owned admitted.2

theorem final_latest
    (processes : Processes platform address contract messages node run) :
    finalContract platform address node run =
      some (latest stamp contract ((heard platform node run).map (proposal address contract))) := by
  rw [run_get run processes.start rfl processes.admitted, latest_flatten, List.map_map]
  rfl

theorem kept_receipts_none {receipts : Receipts} {key : String} (unseen : receipts[key]? = none)
    (now : UInt64) : (keptReceipts receipts now)[key]? = none := by
  rw [keptReceipts, Std.ExtTreeMap.getElem?_filter', unseen, Option.filter_none]

variable (platform) in
theorem process_receipts (delivery : Delivery) (key : String)
    (unseen : node.recentReceipts[key]? = none)
    (other : ∀ contract, delivery.message = .updateContract contract → receiptKey contract ≠ key) :
    (processMessage platform node delivery).recentReceipts[key]? = none := by
  have kept := kept_receipts_none unseen
  unfold processMessage
  split
  · exact unseen
  · next contract update =>
    unfold onUpdateContract
    dsimp only
    split
    · exact unseen
    · split
      · exact unseen
      · split
        · exact unseen
        · split
          · exact kept delivery.receiptTime
          · dsimp only
            rw [get_insert, if_neg (other contract update), kept]

theorem heard_subset (run : List Delivery) :
    ∀ message ∈ heard platform node run, message ∈ run.map Delivery.message := by
  induction run generalizing node with
  | nil => exact fun _ member => absurd member List.not_mem_nil
  | cons delivery rest ih =>
    intro message member
    rw [heard, List.mem_append] at member
    rw [List.map_cons]
    rcases member with now | later
    · split at now
      · rw [List.mem_singleton.mp now]
        exact List.mem_cons_self
      · exact absurd now List.not_mem_nil
    · exact List.mem_cons_of_mem _ (ih message later)

theorem heard_of_head {delivery : Delivery} (rest : List Delivery)
    (hit : hears node delivery = true) :
    delivery.message ∈ heard platform node (delivery :: rest) := by
  rw [heard, if_pos hit]
  exact List.mem_append_left _ List.mem_cons_self

theorem heard_contracts (run : List Delivery) (contracts : List SmartContract)
    (sent : .contracts contracts ∈ run.map Delivery.message) :
    .contracts contracts ∈ heard platform node run := by
  induction run generalizing node with
  | nil => nomatch sent
  | cons delivery rest ih =>
    rcases List.mem_cons.mp sent with here | later
    · have hit : hears node delivery = true := by rw [hears, ← here]
      exact here ▸ heard_of_head rest hit
    · exact List.mem_append_right _ (ih later)

theorem heard_update (run : List Delivery) (contract : SmartContract)
    (unseen : node.recentReceipts[receiptKey contract]? = none)
    (sent : .updateContract contract ∈ run.map Delivery.message) :
    ∃ first, receiptKey first = receiptKey contract ∧
      .updateContract first ∈ heard platform node run := by
  induction run generalizing node with
  | nil => nomatch sent
  | cons delivery rest ih =>
    by_cases here : ∃ first, delivery.message = .updateContract first ∧
        receiptKey first = receiptKey contract
    · obtain ⟨first, update, same⟩ := here
      have hit : hears node delivery = true := by
        rw [hears, update]
        split
        · next peer heading from_peer =>
          obtain rfl := Message.updateContract.inj heading
          rw [recentlyReceived, same, kept_receipts_none unseen]
          rfl
        · rfl
      exact ⟨first, same, update ▸ heard_of_head rest hit⟩
    · have after := process_receipts platform delivery _ unseen fun first update same =>
        here ⟨first, update, same⟩
      rcases List.mem_cons.mp sent with now | later
      · exact absurd ⟨contract, now.symm, rfl⟩ here
      · obtain ⟨first, same, found⟩ := ih after later
        exact ⟨first, same, List.mem_append_right _ found⟩

theorem last_separator_inj {Item : Type*} {separator : Item} {first second tail rest : List Item}
    (clean : separator ∉ tail) (clean' : separator ∉ rest)
    (same : first ++ separator :: tail = second ++ separator :: rest) :
    first = second ∧ tail = rest := by
  rcases List.append_eq_append_iff.mp same with
    ⟨more, longer, remaining⟩ | ⟨more, longer, remaining⟩
  · cases more with
    | nil => exact ⟨by simpa using longer.symm, (List.cons.inj remaining).2⟩
    | cons head more =>
      rw [(List.cons.inj remaining).2] at clean
      exact absurd (List.mem_append_right _ List.mem_cons_self) clean
  · cases more with
    | nil => exact ⟨by simpa using longer, (List.cons.inj remaining).2.symm⟩
    | cons head more =>
      rw [(List.cons.inj remaining).2] at clean'
      exact absurd (List.mem_append_right _ List.mem_cons_self) clean'

theorem decimal_clean (value : UInt64) : ':' ∉ (toString value).toList := by
  intro member
  exact absurd (PaddedNumerals.decimal_digits value ':' member) (by decide)

theorem receipt_key_inj {first second : SmartContract}
    (same : receiptKey first = receiptKey second) :
    first.address = second.address ∧ stamp first = stamp second := by
  have colon : ":".toList = [':'] := by decide
  have texts := congrArg String.toList same
  simp only [receiptKey, String.toList_append, colon, ← List.append_cons] at texts
  obtain ⟨before, sequence⟩ := last_separator_inj (decimal_clean _) (decimal_clean _) texts
  obtain ⟨address, time⟩ := last_separator_inj (decimal_clean _) (decimal_clean _) before
  refine ⟨String.toList_inj.mp address, ?_⟩
  rw [stamp, stamp, ByteCodec.decimal_injective (String.toList_inj.mp time),
    ByteCodec.decimal_injective (String.toList_inj.mp sequence)]

section Proposals

variable {update : SmartContract}

theorem update_proposal
    (newer : stamp contract < stamp (proposal address contract (.updateContract update))) :
    update.address = address ∧ update.owner = contract.owner ∧
      proposal address contract (.updateContract update) = update := by
  rw [proposal, batch, offers] at newer ⊢
  by_cases fits : update.address = address ∧ update.owner = contract.owner
  · rw [List.filter_cons_of_pos (by simpa using fits)] at newer ⊢
    rcases latest_cases stamp contract [update] with same | top
    · exact absurd newer (by rw [List.filter_nil, same]; exact lt_irrefl _)
    · exact ⟨fits.1, fits.2, List.mem_singleton.mp top.offered⟩
  · rw [List.filter_cons_of_neg (by simpa using fits)] at newer
    exact absurd newer (lt_irrefl _)

theorem proposal_of_newer (here : update.address = address)
    (owned : update.owner = contract.owner) (newer : stamp contract < stamp update) :
    proposal address contract (.updateContract update) = update := by
  rw [proposal, batch, offers, List.filter_cons_of_pos (by simp [here, owned])]
  exact accept_of_lt newer

end Proposals

section Sufficient

variable (processes : Processes platform address contract messages node run)
include processes

theorem heard_known {message : Message} (member : message ∈ heard platform node run) : message ∈ messages :=
  (processes.complete message).mp (heard_subset run message member)

/-- A newest contract is heard, whatever the receipts hide. -/
theorem newest_heard (decided : Decided address contract messages) {top : SmartContract}
    (isTop : IsTop stamp contract (messages.map (proposal address contract)) top) :
    top ∈ (heard platform node run).map (proposal address contract) := by
  obtain ⟨message, sent, rfl⟩ := List.mem_map.mp isTop.offered
  have delivered := (processes.complete message).mpr sent
  cases message with
  | contracts contracts => exact List.mem_map_of_mem (heard_contracts run contracts delivered)
  | updateContract newest =>
    obtain ⟨here, owned, itself⟩ := update_proposal isTop.newer
    rcases decided.heard newest ⟨sent, isTop⟩ with ⟨contracts, listed⟩ | alone
    · have passed := (processes.complete _).mpr listed.1
      rw [decided.agree _ _ isTop listed.2]
      exact List.mem_map_of_mem (heard_contracts run contracts passed)
    · have unseen : node.recentReceipts[receiptKey newest]? = none := by
        rw [processes.unseen]
        rfl
      obtain ⟨first, sameKey, hit⟩ := heard_update run newest unseen delivered
      -- the update that took the receipt is a newest one itself
      obtain ⟨sameAddress, sameStamp⟩ := receipt_key_inj sameKey
      have known := heard_known processes hit
      have newer : stamp contract < stamp first := by
        rw [sameStamp, ← itself]
        exact isTop.newer
      have firstItself := proposal_of_newer (sameAddress.trans here)
        (alone first known sameKey) newer
      have firstTop : IsTop stamp contract (messages.map (proposal address contract))
          (proposal address contract (.updateContract first)) := by
        refine ⟨List.mem_map_of_mem known, by rwa [firstItself], fun value member => ?_⟩
        rw [firstItself, sameStamp, ← itself]
        exact isTop.greatest value member
      rw [decided.agree _ _ isTop firstTop]
      exact List.mem_map_of_mem hit

theorem decided_final (decided : Decided address contract messages) :
    finalContract platform address node run =
      some (latest stamp contract (messages.map (proposal address contract))) := by
  rw [final_latest processes, latest_of_heard decided.agree]
  · intro value member
    obtain ⟨message, hit, rfl⟩ := List.mem_map.mp member
    exact List.mem_map_of_mem (heard_known processes hit)
  · exact fun top isTop => newest_heard processes decided isTop

end Sufficient

section Necessary

variable (envs : Message → CallEnv)

def holding (address : String) (contract : SmartContract) : Node :=
  ⟨⟨(∅ : Std.ExtTreeMap String SmartContract).insert address contract⟩, ∅, ∅⟩

theorem holding_get (address : String) (contract : SmartContract) :
    (holding address contract).contractManager.getContract address = some contract :=
  (get_insert _ _ _ _).trans (if_pos rfl)

def quiet (message : Message) : Delivery := ⟨message, none, 0, 0, envs message⟩

theorem quiet_admitted (sent : List Message) (node : Node)
    (sound : ∀ message ∈ sent, Sound platform (envs message) message) :
    AllMeet (processMessage platform) (Admitted platform) node (sent.map (quiet envs)) := by
  induction sent generalizing node with
  | nil => trivial
  | cons message rest ih =>
    have unlimited : Admitted platform node (quiet envs message) :=
      ⟨sound message List.mem_cons_self, fun _ _ _ unsourced => nomatch unsourced⟩
    exact ⟨unlimited, ih _ fun other member => sound other (List.mem_cons_of_mem _ member)⟩

theorem quiet_heard (sent : List Message) (node : Node) :
    heard platform node (sent.map (quiet envs)) = sent := by
  induction sent generalizing node with
  | nil => rfl
  | cons message rest ih =>
    have hit : hears node (quiet envs message) = true := by
      cases message <;> rfl
    rw [List.map_cons, heard, if_pos hit, ih]
    rfl

variable (sound : ∀ message ∈ messages, Sound platform (envs message) message)

include sound in
theorem quiet_processes {first : Message} (known : first ∈ messages) :
    Processes platform address contract messages (holding address contract)
      ((first :: messages).map (quiet envs)) where
  start := holding_get address contract
  unseen := rfl
  complete := by
    intro message
    have same : ((first :: messages).map (quiet envs)).map Delivery.message =
        first :: messages := by
      rw [List.map_map]
      exact List.map_id _
    rw [same, List.mem_cons, or_iff_right_of_imp]
    rintro rfl
    exact known
  admitted := by
    refine quiet_admitted envs _ _ fun message member => sound message ?_
    rcases List.mem_cons.mp member with rfl | member
    · exact known
    · exact member

include sound in
theorem quiet_final {first : Message} (newest : Newest address contract messages first) :
    finalContract platform address (holding address contract)
      ((first :: messages).map (quiet envs)) = some (proposal address contract first) := by
  rw [final_latest (quiet_processes envs sound newest.1), quiet_heard, List.map_cons]
  exact congrArg some (latest_cons_top newest.2 fun _ member => member)

include sound in
theorem agree_of_converges (converges : Converges platform address contract messages) :
    Agree stamp contract (messages.map (proposal address contract)) := by
  intro first second firstTop secondTop
  obtain ⟨message, sent, rfl⟩ := List.mem_map.mp firstTop.offered
  obtain ⟨other, otherSent, rfl⟩ := List.mem_map.mp secondTop.offered
  have same := converges _ _ _ _ (quiet_processes envs sound sent)
    (quiet_processes envs sound otherSent)
  rw [quiet_final envs sound ⟨sent, firstTop⟩,
    quiet_final envs sound ⟨otherSent, secondTop⟩] at same
  exact Option.some.inj same

def repeated (message : Message) : Delivery := ⟨message, some "peer", 0, 0, envs message⟩

variable {other newest : SmartContract}

theorem repeated_first
    (sound : Sound platform (envs (.updateContract other)) (.updateContract other)) :
    processMessage platform (holding address contract) (repeated envs (.updateContract other)) =
      ⟨receive platform (envs (.updateContract other)) (holding address contract).contractManager
          other, (∅ : RateLimits).insert "peer" (0, 1),
        (∅ : Receipts).insert (receiptKey other) (0, "peer")⟩ := by
  have passed : rateLimit updatesPerMinute (∅ : RateLimits) "peer" 0 =
      some ((∅ : RateLimits).insert "peer" (0, 1)) := rfl
  exact update_received (sound.2 other rfl) passed nofun

theorem hears_first_only {manager : ContractManager}
    (sameKey : receiptKey other = receiptKey newest) :
    hears ⟨manager, (∅ : RateLimits).insert "peer" (0, 1),
      (∅ : Receipts).insert (receiptKey other) (0, "peer")⟩
      (repeated envs (.updateContract newest)) = false := by
  have kept : (keptReceipts ((∅ : Receipts).insert (receiptKey other) (0, "peer")) 0)[
      receiptKey newest]? = some (0, "peer") := by
    rw [keptReceipts, Std.ExtTreeMap.getElem?_filter', get_insert, if_pos sameKey]
    rfl
  dsimp only [hears, repeated]
  rw [recentlyReceived, kept]
  rfl

/-- The update of another owner, then the newest one from the same peer, then all others. -/
def shadowed (other newest : SmartContract) (rest : List Message) : List Delivery :=
  repeated envs (.updateContract other) :: repeated envs (.updateContract newest) ::
    rest.map (quiet envs)

theorem shadowed_heard (rest : List Message)
    (sound : Sound platform (envs (.updateContract other)) (.updateContract other))
    (sameKey : receiptKey other = receiptKey newest) :
    heard platform (holding address contract) (shadowed envs other newest rest) =
      .updateContract other :: rest := by
  have first : hears (holding address contract) (repeated envs (.updateContract other)) = true :=
    rfl
  rw [shadowed, heard, if_pos first, heard, repeated_first envs sound,
    if_neg (by rw [hears_first_only envs sameKey]; nofun), quiet_heard]
  rfl

include sound in
theorem shadowed_processes {rest : List Message}
    (otherSent : .updateContract other ∈ messages)
    (newestSent : .updateContract newest ∈ messages)
    (known : ∀ message ∈ rest, message ∈ messages)
    (complete : ∀ message ∈ messages, message = .updateContract newest ∨ message ∈ rest) :
    Processes platform address contract messages (holding address contract)
      (shadowed envs other newest rest) where
  start := holding_get address contract
  unseen := rfl
  complete := by
    intro message
    have same : (shadowed envs other newest rest).map Delivery.message =
        .updateContract other :: .updateContract newest :: rest := by
      rw [shadowed, List.map_cons, List.map_cons, List.map_map]
      exact congrArg (_ :: _ :: ·) (List.map_id _)
    rw [same, List.mem_cons, List.mem_cons]
    constructor
    · rintro (rfl | rfl | member)
      · exact otherSent
      · exact newestSent
      · exact known message member
    · exact fun sent => .inr (complete message sent)
  admitted := by
    have first : (rateLimit updatesPerMinute (∅ : RateLimits) "peer" 0).isSome = true := by
      decide +kernel
    have second : (rateLimit updatesPerMinute ((∅ : RateLimits).insert "peer" (0, 1)) "peer"
        0).isSome = true := by
      decide +kernel
    refine ⟨⟨sound _ otherSent, ?_⟩, ⟨sound _ newestSent, ?_⟩, ?_⟩
    · rintro _ _ _ ⟨⟩
      exact first
    · rintro _ _ _ ⟨⟩
      rw [repeated_first envs (sound _ otherSent)]
      exact second
    · exact quiet_admitted envs rest _ fun message member => sound message (known message member)

include sound in
open Classical in
theorem heard_of_converges
    (converges : Converges platform address contract messages) (newest : SmartContract)
    (isNewest : Newest address contract messages (.updateContract newest))
    (unlisted : ¬ ∃ contracts, Newest address contract messages (.contracts contracts))
    (other : SmartContract) (otherSent : .updateContract other ∈ messages)
    (sameKey : receiptKey other = receiptKey newest) : other.owner = contract.owner := by
  by_contra stranger
  have newer := isNewest.2.newer
  let rest := messages.filter (· ≠ .updateContract newest)
  have hidden : Processes platform address contract messages (holding address contract)
      (shadowed envs other newest rest) := by
    refine shadowed_processes envs sound otherSent isNewest.1 (fun _ member =>
      List.mem_of_mem_filter member) fun message sent => ?_
    by_cases same : message = .updateContract newest
    · exact .inl same
    · exact .inr (List.mem_filter.mpr ⟨sent, decide_eq_true same⟩)
  have same := converges _ _ _ _ hidden (quiet_processes envs sound isNewest.1)
  rw [final_latest hidden, shadowed_heard envs rest (sound _ otherSent) sameKey,
    quiet_final envs sound isNewest] at same
  have reached := Option.some.inj same
  -- the newest contract would have to come from a message that was heard
  rcases latest_cases stamp contract
      ((.updateContract other :: rest).map (proposal address contract)) with kept | top
  · rw [← reached, kept] at newer
    exact lt_irrefl _ newer
  · obtain ⟨message, member, source⟩ := List.mem_map.mp top.offered
    rw [reached] at source
    rcases List.mem_cons.mp member with rfl | later
    · rw [← source, proposal, batch, offers, List.filter_cons_of_neg (by simp [stranger])] at newer
      exact lt_irrefl _ newer
    · obtain ⟨sent, apart⟩ := List.mem_filter.mp later
      apply of_decide_eq_true apart
      have newestToo : Newest address contract messages message := ⟨sent, source ▸ isNewest.2⟩
      cases message with
      | contracts contracts => exact absurd ⟨contracts, newestToo⟩ unlisted
      | updateContract update =>
        rw [(update_proposal newestToo.2.newer).2.2,
          (update_proposal isNewest.2.newer).2.2] at source
        rw [source]

end Necessary

/-- The copies of a contract agree for all orders of delivery exactly if the messages
with the newest contracts agree and none of them can be hidden by a receipt. -/
theorem replicas_converge_iff (platform : Platform) (address : String) (contract : SmartContract)
    (messages : List Message) (envs : Message → CallEnv)
    (sound : ∀ message ∈ messages, Sound platform (envs message) message) :
    Converges platform address contract messages ↔ Decided address contract messages := by
  constructor
  · intro converges
    refine ⟨agree_of_converges envs sound converges, fun newest isNewest => ?_⟩
    by_cases listed : ∃ contracts, Newest address contract messages (.contracts contracts)
    · exact .inl listed
    · exact .inr (heard_of_converges envs sound converges newest isNewest listed)
  · intro decided left right leftRun rightRun leftProcesses rightProcesses
    rw [decided_final leftProcesses decided, decided_final rightProcesses decided]

def minted (receiver : Char) : SmartContract :=
  step plain (deployed "erc20") (called 'o' (.mint (account receiver) 5))

theorem sound_update (valid : contract.validateIntegrity platform env)
    (small : (contractJson platform env contract).utf8ByteSize ≤ maxContractSize) :
    Sound platform env (.updateContract contract) := by
  refine ⟨by simpa [offers] using valid, ?_⟩
  rintro _ ⟨⟩
  exact small

theorem minted_sound : ∀ message ∈ [Message.updateContract (minted 'a'),
    .updateContract (minted 'b')], Sound plain ⟨0, .asStored, .asStored⟩ message := by
  rw [List.forall_mem_cons, List.forall_mem_singleton]
  exact ⟨sound_update (by decide +kernel) (by decide +kernel),
    sound_update (by decide +kernel) (by decide +kernel)⟩

theorem single_update_converges :
    Converges plain (deployed "erc20").address (deployed "erc20")
      [.updateContract (minted 'a')] := by
  refine (replicas_converge_iff plain _ _ _ (fun _ => ⟨0, .asStored, .asStored⟩) ?_).mpr ⟨?_, ?_⟩
  · rw [List.forall_mem_singleton]
    exact minted_sound _ List.mem_cons_self
  · intro first second firstTop secondTop
    exact (List.mem_singleton.mp firstTop.offered).trans
      (List.mem_singleton.mp secondTop.offered).symm
  · refine fun newest _ => .inr fun other sent _ => ?_
    rw [Message.updateContract.inj (List.mem_singleton.mp sent)]
    rfl

/-- Two nodes execute a call in the same second and exchange the results. -/
theorem concurrent_updates_diverge :
    ¬ Converges plain (deployed "erc20").address (deployed "erc20")
      [.updateContract (minted 'a'), .updateContract (minted 'b')] := by
  intro converges
  have agree := agree_of_converges _ minted_sound converges
  have first : proposal (deployed "erc20").address (deployed "erc20")
      (.updateContract (minted 'a')) = minted 'a' :=
    proposal_of_newer (by decide +kernel) (by decide +kernel) (by decide +kernel)
  have second : proposal (deployed "erc20").address (deployed "erc20")
      (.updateContract (minted 'b')) = minted 'b' :=
    proposal_of_newer (by decide +kernel) (by decide +kernel) (by decide +kernel)
  rw [List.map_cons, List.map_singleton, first, second] at agree
  -- both have the same time and sequence number, but not the same balances
  have same : minted 'a' = minted 'b' := by
    apply agree
    · exact ⟨List.mem_cons_self, by decide +kernel, by decide +kernel⟩
    · exact ⟨List.mem_cons_of_mem _ List.mem_cons_self, by decide +kernel, by decide +kernel⟩
  have balances := congrArg (·.getBalance (account 'a')) same
  exact absurd balances (by decide +kernel)

end CeruleanLedger.ReplicaConvergence

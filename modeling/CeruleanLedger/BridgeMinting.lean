import CeruleanLedger.Bridge

/-!
Which inbound messages mint wrapped tokens. A message passes by its source chain,
its height, its proof and its payload; replay is prevented by its id alone, which
nothing ties to the rest of it. The node knows no roots of other chains, so which
roots are known is a parameter of the statements about evidence.
-/

namespace CeruleanLedger.BridgeMinting

open Bridge ByteCodec InPlace InclusionProofs OrderedMap Relayer

variable (platform : Platform)

section Minting

def transfers : MessagePayload → Bool
  | .tokenTransfer _ _ amount _ => amount ≠ 0
  | _ => false

def mints (engine : BridgeEngine) (message : BridgeMessage) (height : UInt64) : Bool :=
  (engine.processInbound platform message height).2.isOk && transfers message.payload

def Passes (registry : Std.ExtTreeMap String ChainConfig) (message : BridgeMessage)
    (height : UInt64) : Prop :=
  ∃ config proof, registry[message.sourceChain]? = some config ∧ config.active = true ∧
    config.minConfirmations ≤ BridgeEngine.confirmations height message.sourceHeight ∧
    message.proof = some proof ∧
    verifyMerkleProof platform.sha256 (platform.payloadJson message.payload) proof = true

variable {platform}

theorem check_inbound_ok_iff (engine : BridgeEngine) (message : BridgeMessage) (height : UInt64) :
    engine.checkInbound platform message height = .ok () ↔
      engine.processed.contains message.id = false ∧
        Passes platform engine.registry message height := by
  unfold BridgeEngine.checkInbound Passes
  cases engine.registry[message.sourceChain]? with
  | none => simp
  | some config =>
    cases message.proof with
    | none =>
      simp only [reduceCtorEq, false_and, and_false, exists_false, iff_false]
      split
      · exact nofun
      · split
        · exact nofun
        · exact nofun
    | some proof =>
      by_cases active : config.active = true
      · by_cases deep : BridgeEngine.confirmations height message.sourceHeight <
            config.minConfirmations
        · simp [active, deep]
        · by_cases verified : verifyMerkleProof platform.sha256
              (platform.payloadJson message.payload) proof = true
          · by_cases known : engine.processed.contains message.id = true
            · simp [active, deep, verified, known]
            · simp [active, deep, verified, known, UInt64.not_lt.mp deep]
          · simp [active, deep, verified]
      · simp [active]

inductive Inbound (engine : BridgeEngine) (message : BridgeMessage) :
    Bool → BridgeEngine → Prop where
  | refused : Inbound engine message false engine
  | marked : Inbound engine message false
      { engine with processed := engine.processed.insert message.id .completed }
  | minted (sender recipient : String) (amount balance : UInt64) (denom : String)
      (escrow : EscrowVault)
      (carries : message.payload = .tokenTransfer sender recipient amount denom)
      (grown : (EscrowVault.mint recipient amount message.sourceChain denom).run engine.escrow =
        .ok balance escrow) :
      Inbound engine message true
        { engine with processed := engine.processed.insert message.id .completed, escrow }

theorem process_inbound_cases (platform : Platform) (engine : BridgeEngine)
    (message : BridgeMessage) (height : UInt64) :
    Inbound engine message (mints platform engine message height)
      (engine.processInbound platform message height).1 := by
  unfold mints BridgeEngine.processInbound
  cases engine.checkInbound platform message height with
  | error reason => exact .refused
  | ok admitted =>
    cases carries : message.payload with
    | tokenTransfer sender recipient amount denom =>
      dsimp only
      cases grown : (EscrowVault.mint recipient amount message.sourceChain denom).run
        engine.escrow with
      | error reason escrow =>
        have kept : Atomic (EscrowVault.mint recipient amount message.sourceChain denom)
            engine.escrow := atomic_check fun _ => atomic_read (atomic_done ⟨_, _, rfl⟩)
        cases kept reason escrow grown
        exact .marked
      | ok balance escrow =>
        have transfer : transfers (.tokenTransfer sender recipient amount denom) = true := by
          obtain ⟨_, passed, _⟩ := run_check_ok_iff.mp grown
          rw [transfers, decide_eq_true_eq]
          exact refuse_ok_iff.mp passed
        rw [transfer]
        exact .minted sender recipient amount balance denom escrow carries grown
    | _ => exact .marked

theorem mints_iff (engine : BridgeEngine) (message : BridgeMessage) (height : UInt64) :
    mints platform engine message height = true ↔
      engine.processed.contains message.id = false ∧
        Passes platform engine.registry message height ∧ transfers message.payload = true := by
  rw [← and_assoc, ← check_inbound_ok_iff, mints, Bool.and_eq_true]
  apply and_congr_left
  intro transfer
  unfold BridgeEngine.processInbound
  cases engine.checkInbound platform message height with
  | error reason => exact iff_of_false nofun nofun
  | ok admitted =>
    refine iff_of_true ?_ rfl
    cases carries : message.payload with
    | tokenTransfer sender recipient amount denom =>
      rw [carries, transfers, decide_eq_true_eq] at transfer
      simp only [EscrowVault.mint, refuseIf, if_neg transfer]
      rfl
    | _ => rfl

variable {engine after : BridgeEngine} {message : BridgeMessage} {minted : Bool}

theorem inbound_registry (step : Inbound engine message minted after) :
    after.registry = engine.registry := by
  cases step with
  | refused => rfl
  | marked => rfl
  | minted => rfl

theorem inbound_processed (step : Inbound engine message minted after) (id : Hash32)
    (other : message.id ≠ id) : after.processed.contains id = engine.processed.contains id := by
  have apart : (engine.processed.insert message.id .completed).contains id =
      engine.processed.contains id := by
    rw [Std.ExtTreeMap.contains_insert, beq_false_of_ne, Bool.false_or]
    exact fun equal => other (Std.LawfulEqCmp.eq_of_compare equal)
  cases step with
  | refused => rfl
  | marked => exact apart
  | minted => exact apart

theorem inbound_processed_mono (step : Inbound engine message minted after) (id : Hash32)
    (fresh : after.processed.contains id = false) : engine.processed.contains id = false := by
  have before : (engine.processed.insert message.id .completed).contains id = false →
      engine.processed.contains id = false := by
    rw [Std.ExtTreeMap.contains_insert, Bool.or_eq_false_iff]
    exact And.right
  cases step with
  | refused => exact fresh
  | marked => exact before fresh
  | minted => exact before fresh

theorem minted_processed (step : Inbound engine message true after) :
    after.processed.contains message.id = true := by
  cases step with
  | minted => exact Std.ExtTreeMap.contains_insert_self

def Mintable (platform : Platform) (engine : BridgeEngine) (message : BridgeMessage) : Prop :=
  ∃ height, mints platform engine message height = true

structure Later (engine after : BridgeEngine) : Prop where
  registry : after.registry = engine.registry
  processed : ∀ id, after.processed.contains id = false → engine.processed.contains id = false

theorem Later.refl (engine : BridgeEngine) : Later engine engine := ⟨rfl, fun _ => id⟩

theorem Later.trans {middle : BridgeEngine} (first : Later engine middle)
    (second : Later middle after) : Later engine after :=
  ⟨second.registry.trans first.registry,
    fun id fresh => first.processed id (second.processed id fresh)⟩

theorem inbound_later (platform : Platform) (engine : BridgeEngine) (message : BridgeMessage)
    (height : UInt64) :
    Later engine (engine.processInbound platform message height).1 :=
  have step := process_inbound_cases platform engine message height
  ⟨inbound_registry step, inbound_processed_mono step⟩

theorem Later.mints (later : Later engine after) {height : UInt64}
    (minted : mints platform after message height = true) :
    mints platform engine message height = true := by
  rw [mints_iff] at minted ⊢
  rw [later.registry] at minted
  exact ⟨later.processed _ minted.1, minted.2⟩

theorem Later.mintable (later : Later engine after) (mintable : Mintable platform after message) :
    Mintable platform engine message := by
  obtain ⟨height, minted⟩ := mintable
  exact ⟨height, later.mints minted⟩

end Minting

section Replay

/-- What a proof shows to have happened on the source chain. -/
structure SourceEvent where
  sourceChain : String
  payload : MessagePayload
  leafIndex : UInt64
  blockHash : Hash32
  root : Hash32
  deriving DecidableEq

def eventOf (message : BridgeMessage) : Option SourceEvent :=
  message.proof.map fun proof =>
    ⟨message.sourceChain, message.payload, proof.leafIndex, proof.blockHash, proof.root⟩

def mintedEvents : BridgeEngine → List (BridgeMessage × UInt64) → List SourceEvent
  | _, [] => []
  | engine, (message, height) :: rest =>
    (if mints platform engine message height then (eventOf message).toList else []) ++
      mintedEvents (engine.processInbound platform message height).1 rest

variable {platform}

theorem minted_event_source {engine : BridgeEngine} {calls : List (BridgeMessage × UInt64)}
    {event : SourceEvent} (minted : event ∈ mintedEvents platform engine calls) :
    ∃ call ∈ calls, Mintable platform engine call.1 ∧ eventOf call.1 = some event := by
  induction calls generalizing engine with
  | nil => cases minted
  | cons call rest ih =>
    rw [mintedEvents, List.mem_append] at minted
    rcases minted with now | later
    · split at now
      · next mintsNow =>
        exact ⟨call, List.mem_cons_self, ⟨call.2, mintsNow⟩, Option.mem_toList.mp now⟩
      · cases now
    · obtain ⟨source, member, mintable, same⟩ := ih later
      exact ⟨source, List.mem_cons_of_mem _ member,
        (inbound_later platform engine call.1 call.2).mintable mintable, same⟩

/-- The messages that can mint for one event share their id. -/
def IdsFollowEvents (platform : Platform) (engine : BridgeEngine) (sent : Set BridgeMessage) :
    Prop :=
  ∀ first ∈ sent, ∀ second ∈ sent, Mintable platform engine first →
    Mintable platform engine second → eventOf first = eventOf second → first.id = second.id

theorem minted_events_nodup (engine : BridgeEngine) (sent : Set BridgeMessage)
    (calls : List (BridgeMessage × UInt64)) (fromSent : ∀ call ∈ calls, call.1 ∈ sent)
    (follow : IdsFollowEvents platform engine sent) :
    (mintedEvents platform engine calls).Nodup := by
  induction calls generalizing engine with
  | nil => exact List.nodup_nil
  | cons call rest ih =>
    have later := inbound_later platform engine call.1 call.2
    have restNodup := ih (engine.processInbound platform call.1 call.2).1
      (fun other member => fromSent other (List.mem_cons_of_mem _ member))
      (fun first known second known' mintable mintable' =>
        follow first known second known' (later.mintable mintable) (later.mintable mintable'))
    rw [mintedEvents]
    split
    · next minted =>
      have step := process_inbound_cases platform engine call.1 call.2
      rw [minted] at step
      refine List.Nodup.append ?_ restNodup ?_
      · cases eventOf call.1 with
        | none => exact List.nodup_nil
        | some event => exact List.nodup_singleton event
      · -- A second mint would be of a message whose id is marked by now.
        intro event now again
        obtain ⟨source, member, mintable, same⟩ := minted_event_source again
        have sameId := follow call.1 (fromSent call List.mem_cons_self) source.1
          (fromSent source (List.mem_cons_of_mem _ member)) ⟨call.2, minted⟩
          (later.mintable mintable) ((Option.mem_toList.mp now).trans same.symm)
        obtain ⟨height, mintsAgain⟩ := mintable
        have fresh := ((mints_iff ..).mp mintsAgain).1
        rw [← sameId, minted_processed step] at fresh
        cases fresh
    · exact restNodup

/-- Whatever messages are sent, each event mints at most once in every sequence of
calls exactly when those that can mint for one event share their id. -/
theorem minted_once_iff (platform : Platform) (engine : BridgeEngine)
    (sent : Set BridgeMessage) :
    (∀ calls : List (BridgeMessage × UInt64), (∀ call ∈ calls, call.1 ∈ sent) →
      ∀ event, (mintedEvents platform engine calls).count event ≤ 1) ↔
      IdsFollowEvents platform engine sent := by
  constructor
  · rintro once first known second known' ⟨height, mintsFirst⟩ ⟨height', mintsSecond⟩ same
    by_contra apart
    obtain ⟨fresh, passes, transfer⟩ := (mints_iff ..).mp mintsFirst
    obtain ⟨config, proof, _, _, _, proven, _⟩ := passes
    have event : eventOf first = some ⟨first.sourceChain, first.payload, proof.leafIndex,
        proof.blockHash, proof.root⟩ := by
      rw [eventOf, proven]
      rfl
    have step := process_inbound_cases platform engine first height
    have mintsAfter : mints platform (engine.processInbound platform first height).1 second
        height' = true := by
      rw [mints_iff] at mintsSecond ⊢
      rw [inbound_registry step, inbound_processed step _ apart]
      exact mintsSecond
    have bounded := once [(first, height), (second, height')] (by simp [known, known'])
      ⟨first.sourceChain, first.payload, proof.leafIndex, proof.blockHash, proof.root⟩
    simp only [mintedEvents, mintsFirst, mintsAfter, if_true, ← same, event, Option.toList,
      List.append_nil, List.singleton_append, List.count_cons_self, List.count_nil] at bounded
    omega
  · intro follow calls fromSent event
    exact List.nodup_iff_count_le_one.mp (minted_events_nodup engine sent calls fromSent follow)
      event

def openPlatform : Platform where
  sha256 data := Vector.ofFn fun place => data.getD place 0
  payloadJson
    | .tokenTransfer sender recipient amount denom =>
      utf8 sender ++ utf8 recipient ++ toLeBytes amount ++ utf8 denom
    | .dataRelay contractId function data => utf8 contractId ++ utf8 function ++ data
    | .ack originalId _ _ => originalId.toList

def ethereumEngine : BridgeEngine :=
  BridgeEngine.new.register ⟨"ethereum", true, 12, 1000000⟩

def transferOf (number : UInt8) (proof : Option InclusionProof) : BridgeMessage :=
  ⟨Vector.replicate 32 number, "ethereum", native, number.toUInt64,
    .tokenTransfer "0xSender" "recv" 1000 "wETH", 100, 0, proof⟩

def transferProof : InclusionProof :=
  soleProof openPlatform.sha256 (openPlatform.payloadJson (transferOf 0 none).payload)

/-- One event under two ids. -/
theorem transfer_minted_twice :
    let calls := [(transferOf 1 transferProof, 112), (transferOf 2 transferProof, 112)]
    let after := calls.foldl
      (fun engine call => (engine.processInbound openPlatform call.1 call.2).1) ethereumEngine
    (∃ event, (mintedEvents openPlatform ethereumEngine calls).count event = 2) ∧
      after.escrow.wrappedTotalSupply "ethereum" "wETH" = 2000 := by
  refine ⟨⟨⟨"ethereum", (transferOf 0 none).payload, 0, zeroHash, transferProof.root⟩, ?_⟩, ?_⟩
  · decide +kernel
  · decide +kernel

end Replay

def Evidenced (known : Set Hash32) (message : BridgeMessage) : Prop :=
  ∃ proof, message.proof = some proof ∧ proof.root ∈ known

inductive BridgeOp where
  | queueInbound (message : BridgeMessage)
  | processNext (height : UInt64)
  | processAll (height : UInt64)
  | processInbound (message : BridgeMessage) (height : UInt64)

/-- The relayer and the engine, with the messages behind the queued jobs as they
arrived, and those that minted. -/
structure Watched where
  relayer : Relayer
  engine : BridgeEngine
  origins : List BridgeMessage
  minted : List BridgeMessage

/-- One `process_next`. A job that is tried again goes to the end of the queue. -/
def watchNext (height : UInt64) (watched : Watched) : Watched :=
  match watched.relayer.queue with
  | [] => watched
  | job :: rest =>
    let origin := watched.origins.headD job.message
    let next := watched.relayer.processNext platform watched.engine height
    { relayer := next.1
      engine := next.2.1
      origins := watched.origins.tail ++
        if next.1.queue.length ≤ rest.length then [] else [origin]
      minted := watched.minted ++
        if job.direction = .inbound ∧
            mints platform watched.engine (withProof platform job.message) height then
          [origin]
        else [] }

def watch (watched : Watched) : BridgeOp → Watched
  | .queueInbound message =>
    { watched with
      relayer := watched.relayer.queueInbound message
      origins := if maxRelayQueue ≤ watched.relayer.queue.length then watched.origins
        else watched.origins ++ [message] }
  | .processNext height => watchNext platform height watched
  | .processAll height =>
    (watchNext platform height)^[watched.relayer.allTriesLeft + 1] watched
  | .processInbound message height =>
    { watched with
      engine := (watched.engine.processInbound platform message height).1
      minted := watched.minted ++
        if mints platform watched.engine message height then [message] else [] }

def watchedFrom (maxAttempts : UInt32) (engine : BridgeEngine) : Watched :=
  ⟨.new maxAttempts, engine, [], []⟩

def OpFrom (queued direct : Set BridgeMessage) : BridgeOp → Prop
  | .queueInbound message => message ∈ queued
  | .processInbound message _ => message ∈ direct
  | _ => True

variable {platform}

theorem watch_next_relayer (platform : Platform) (height : UInt64) (watched : Watched) :
    let next := watched.relayer.processNext platform watched.engine height
    (watchNext platform height watched).relayer = next.1 ∧
      (watchNext platform height watched).engine = next.2.1 := by
  unfold watchNext processNext
  cases watched.relayer.queue with
  | nil => exact ⟨rfl, rfl⟩
  | cons job rest => exact ⟨rfl, rfl⟩

theorem process_next_empty {relayer after : Relayer} {engine engine' : BridgeEngine}
    {height : UInt64}
    (stopped : relayer.processNext platform engine height = (after, engine', .error .emptyQueue)) :
    relayer.queue = [] := by
  unfold processNext at stopped
  cases shape : relayer.queue with
  | nil => rfl
  | cons job rest =>
    rw [shape] at stopped
    dsimp only at stopped
    split at stopped
    · cases stopped
    · next failed =>
      split at stopped
      · cases stopped
      · cases stopped
        unfold attempt at failed
        dsimp only at failed
        split at failed
        · split at failed
          · cases failed
          · cases failed
        · cases failed

theorem watch_idle (height : UInt64) (watched : Watched) (idle : watched.relayer.queue = [])
    (count : Nat) : (watchNext platform height)^[count] watched = watched := by
  have fixed : watchNext platform height watched = watched := by
    unfold watchNext
    rw [idle]
  exact Function.iterate_fixed fixed count

theorem watch_within (height : UInt64) (count : Nat) (watched : Watched) :
    let ran := watched.relayer.processWithin platform count watched.engine height
    ((watchNext platform height)^[count] watched).relayer = ran.1 ∧
      ((watchNext platform height)^[count] watched).engine = ran.2.1 := by
  induction count generalizing watched with
  | zero => exact ⟨rfl, rfl⟩
  | succ count ih =>
    have next := watch_next_relayer platform height watched
    rw [Function.iterate_succ_apply, processWithin]
    split
    · next relayer engine stopped =>
      have idle := process_next_empty stopped
      have still : watchNext platform height watched = watched :=
        watch_idle height watched idle 1
      rw [still, watch_idle height watched idle count]
      rw [still, stopped] at next
      exact next
    · next relayer engine reason unfinished failed =>
      have later := ih (watchNext platform height watched)
      rw [next.1, next.2, failed] at later
      exact later
    · next relayer engine id done =>
      have later := ih (watchNext platform height watched)
      rw [next.1, next.2, done] at later
      exact later

/-- What is watched beside the relayer and the engine changes nothing for them. -/
theorem watch_process_all (height : UInt64) (watched : Watched) :
    let ran := watched.relayer.processAll platform watched.engine height
    (watch platform watched (.processAll height)).relayer = ran.1 ∧
      (watch platform watched (.processAll height)).engine = ran.2.1 :=
  watch_within height _ watched

theorem with_proof_of_some {message : BridgeMessage} {proof : InclusionProof}
    (proven : message.proof = some proof) : withProof platform message = message := by
  unfold withProof
  rw [proven]

theorem with_proof_idem (message : BridgeMessage) :
    withProof platform (withProof platform message) =
      withProof platform message := by
  cases proven : message.proof with
  | some proof => rw [with_proof_of_some proven, with_proof_of_some proven]
  | none =>
    apply with_proof_of_some
    unfold withProof
    rw [proven]
    dsimp only
    rw [build_single_leaf]
    rfl

theorem process_next_cases (platform : Platform) (relayer : Relayer) (engine : BridgeEngine)
    (height : UInt64) (job : RelayJob) (rest : List RelayJob)
    (front : relayer.queue = job :: rest) (inbound : job.direction = .inbound) :
    let next := relayer.processNext platform engine height
    next.2.1 = (engine.processInbound platform (withProof platform job.message) height).1 ∧
      (next.1.queue = rest ∨ ∃ again, next.1.queue = rest ++ [again] ∧
        again.direction = .inbound ∧
        again.message = withProof platform job.message) := by
  intro next
  unfold next processNext attempt
  rw [front]
  dsimp only
  rw [inbound]
  dsimp only
  cases engine.processInbound platform (withProof platform job.message) height with
  | mk after result =>
    cases result with
    | ok done => exact ⟨rfl, Or.inl rfl⟩
    | error reason =>
      dsimp only
      split
      · exact ⟨rfl, Or.inl rfl⟩
      · exact ⟨rfl, Or.inr ⟨_, rfl, rfl, rfl⟩⟩

section Soundness

variable {engine₀ : BridgeEngine} {queued direct : Set BridgeMessage} {known : Set Hash32}

/-- A job is about the message that arrived, with a proof added if it had none. -/
def Carries (platform : Platform) (job : RelayJob) (origin : BridgeMessage) : Prop :=
  job.direction = .inbound ∧
    withProof platform job.message = withProof platform origin

/-- The jobs carry messages that were queued, and all that minted was evidenced. -/
structure Sound (platform : Platform) (engine₀ : BridgeEngine) (queued : Set BridgeMessage)
    (known : Set Hash32) (watched : Watched) : Prop where
  jobs : List.Forall₂ (Carries platform) watched.relayer.queue watched.origins
  origins : ∀ origin ∈ watched.origins, origin ∈ queued
  later : Later engine₀ watched.engine
  minted : ∀ message ∈ watched.minted, Evidenced known message

/-- Every message that the engine would mint for arrived with evidence. -/
structure OnlyEvidenced (platform : Platform) (engine₀ : BridgeEngine)
    (queued direct : Set BridgeMessage) (known : Set Hash32) : Prop where
  queued : ∀ message ∈ queued, Mintable platform engine₀ (withProof platform message) →
    Evidenced known message
  direct : ∀ message ∈ direct, Mintable platform engine₀ message → Evidenced known message

theorem watch_next_sound (evidence : OnlyEvidenced platform engine₀ queued direct known)
    (height : UInt64) (watched : Watched)
    (sound : Sound platform engine₀ queued known watched) :
    Sound platform engine₀ queued known (watchNext platform height watched) := by
  obtain ⟨relayer, engine, origins, minted⟩ := watched
  obtain ⟨jobs, known', later, evidenced⟩ := sound
  dsimp only at jobs known' later evidenced
  unfold watchNext
  cases front : relayer.queue with
  | nil =>
    rw [front] at jobs
    exact ⟨by rwa [front], known', later, evidenced⟩
  | cons job rest =>
    rw [front] at jobs
    cases jobs with
    | @cons _ origin _ others carries behind =>
      obtain ⟨engineIs, queueIs⟩ := process_next_cases platform relayer engine height job
        rest front carries.1
      dsimp only [List.headD_cons, List.tail_cons]
      refine ⟨?_, ?_, ?_, ?_⟩
      · dsimp only
        rcases queueIs with gone | ⟨again, requeued, direction, same⟩
        · rw [gone, if_pos (Nat.le_refl _), List.append_nil]
          exact behind
        · rw [requeued, if_neg (by simp)]
          refine List.rel_append behind (.cons ⟨direction, ?_⟩ .nil)
          rw [same, with_proof_idem]
          exact carries.2
      · intro message member
        rw [List.mem_append] at member
        rcases member with kept | requeued
        · exact known' message (List.mem_cons_of_mem _ kept)
        · split at requeued
          · cases requeued
          · rw [List.mem_singleton.mp requeued]
            exact known' origin List.mem_cons_self
      · dsimp only
        rw [engineIs]
        exact later.trans (inbound_later platform engine _ height)
      · intro message member
        rw [List.mem_append] at member
        rcases member with earlier | now
        · exact evidenced message earlier
        · split at now
          · next mintsNow =>
            rw [List.mem_singleton.mp now]
            apply evidence.queued origin (known' origin List.mem_cons_self)
            rw [← carries.2]
            exact ⟨height, later.mints mintsNow.2⟩
          · cases now

theorem watch_sound (evidence : OnlyEvidenced platform engine₀ queued direct known)
    (watched : Watched) (op : BridgeOp) (sound : Sound platform engine₀ queued known watched)
    (allowed : OpFrom queued direct op) :
    Sound platform engine₀ queued known (watch platform watched op) := by
  cases op with
  | queueInbound message =>
    unfold watch queueInbound enqueue
    dsimp only
    by_cases full : maxRelayQueue ≤ watched.relayer.queue.length
    · rw [if_pos full, if_pos full]
      exact sound
    · rw [if_neg full, if_neg full]
      refine ⟨List.rel_append sound.jobs (.cons ⟨rfl, rfl⟩ .nil), ?_, sound.later, sound.minted⟩
      intro origin member
      rcases List.mem_append.mp member with earlier | now
      · exact sound.origins origin earlier
      · rw [List.mem_singleton.mp now]
        exact allowed
  | processNext height => exact watch_next_sound evidence height watched sound
  | processAll height =>
    have all : ∀ count, Sound platform engine₀ queued known
        ((watchNext platform height)^[count] watched) := by
      intro count
      induction count with
      | zero => exact sound
      | succ count ih =>
        rw [Function.iterate_succ_apply']
        exact watch_next_sound evidence height _ ih
    exact all _
  | processInbound message height =>
    refine ⟨sound.jobs, sound.origins, ?_, ?_⟩
    · exact sound.later.trans (inbound_later platform watched.engine message height)
    · intro minted member
      rcases List.mem_append.mp member with earlier | now
      · exact sound.minted minted earlier
      · split at now
        · next mintsNow =>
          rw [List.mem_singleton.mp now]
          exact evidence.direct message allowed ⟨height, sound.later.mints mintsNow⟩
        · cases now

end Soundness

/-- Whatever messages reach the relayer and the engine, and whatever roots are
known, every mint in every sequence of operations is evidenced exactly when every
message that could mint arrives with evidence. -/
theorem minted_evidenced_iff (platform : Platform) (engine : BridgeEngine) (maxAttempts : UInt32)
    (queued direct : Set BridgeMessage) (known : Set Hash32) :
    (∀ ops : List BridgeOp, (∀ op ∈ ops, OpFrom queued direct op) →
      ∀ message ∈ (ops.foldl (watch platform) (watchedFrom maxAttempts engine)).minted,
        Evidenced known message) ↔
      OnlyEvidenced platform engine queued direct known := by
  constructor
  · intro always
    constructor
    · rintro message member ⟨height, minted⟩
      apply always [.queueInbound message, .processNext height]
      · simp [OpFrom, member]
      · simp [watch, watchNext, watchedFrom, new, queueInbound, enqueue,
          maxRelayQueue, minted]
    · rintro message member ⟨height, minted⟩
      apply always [.processInbound message height]
      · simp [OpFrom, member]
      · simp [watch, watchedFrom, minted]
  · intro evidence ops allowed
    have start : Sound platform engine queued known (watchedFrom maxAttempts engine) :=
      ⟨.nil, by simp [watchedFrom], Later.refl engine, by simp [watchedFrom]⟩
    have run : ∀ (ops : List BridgeOp) (watched : Watched),
        (∀ op ∈ ops, OpFrom queued direct op) → Sound platform engine queued known watched →
        Sound platform engine queued known (ops.foldl (watch platform) watched) := by
      intro ops
      induction ops with
      | nil => exact fun _ _ sound => sound
      | cons op rest ih =>
        intro watched allowed sound
        exact ih _ (fun later member => allowed later (List.mem_cons_of_mem _ member))
          (watch_sound evidence watched op sound (allowed op List.mem_cons_self))
    exact (run ops _ allowed start).minted

/-- A message without a proof mints through the relayer, and one with a proof of
its own making mints directly, though no root is known. -/
theorem minted_without_evidence :
    let queuedRun := [BridgeOp.queueInbound (transferOf 1 none), .processNext 112].foldl
      (watch openPlatform) (watchedFrom 3 ethereumEngine)
    let directRun := [BridgeOp.processInbound (transferOf 2 transferProof) 112].foldl
      (watch openPlatform) (watchedFrom 3 ethereumEngine)
    (queuedRun.minted = [transferOf 1 none] ∧
        queuedRun.engine.escrow.wrappedTotalSupply "ethereum" "wETH" = 1000) ∧
      (directRun.minted = [transferOf 2 transferProof] ∧
        directRun.engine.escrow.wrappedTotalSupply "ethereum" "wETH" = 1000) := by
  decide +kernel

end CeruleanLedger.BridgeMinting

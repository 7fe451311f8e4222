import CeruleanLedger.ConsensusRound

/-!
Safety of a consensus round. The ladder below is what a round is for: a block
is proposed once, three certificates are formed for it in order, and the round
ends by deciding or by failing. `BftRound::process` takes one rung of the
ladder or none, so what holds along every climb holds for every sequence of
events.
-/

namespace CeruleanLedger.RoundSafety

open ByteCodec BftVotes QuorumValidation IterationOrder ConsensusRound

structure Ladder where
  state : RoundState
  blockHash : Option Hash32
  prepareQc : Option QuorumCertificate
  precommitQc : Option QuorumCertificate
  commitQc : Option QuorumCertificate
  deriving DecidableEq

def Ladder.bottom : Ladder := ⟨.awaitingProposal, none, none, none, none⟩

def Terminal (state : RoundState) : Prop := state = .decided ∨ state = .failed

inductive Proposes : RoundAction → Prop
  | leader (hash : Hash32) : Proposes (.broadcastProposal hash)
  | follower (vote : VoteMessage) : Proposes (.sendVote vote)

section Climbing

variable (number : UInt64) (validator : QuorumValidator)

/-- One rung: the action that reports it, and where it leads. -/
inductive Climbs : Ladder → RoundAction → Ladder → Prop
  | stays (ladder : Ladder) : Climbs ladder .none ladder
  | proposes (ladder : Ladder) (hash : Hash32) (action : RoundAction) (quiet : Proposes action)
      (waiting : ladder.state = .awaitingProposal) :
      Climbs ladder action { ladder with state := .preparing, blockHash := some hash }
  | prepares (ladder : Ladder) (hash : Hash32) (qc : QuorumCertificate)
      (preparing : ladder.state = .preparing) (proposed : ladder.blockHash = some hash)
      (certifies : Certifies number validator .prepare hash qc) :
      Climbs ladder (.phaseComplete .prepare qc)
        { ladder with state := .preCommitting, prepareQc := some qc }
  | precommits (ladder : Ladder) (hash : Hash32) (qc : QuorumCertificate)
      (preCommitting : ladder.state = .preCommitting) (proposed : ladder.blockHash = some hash)
      (certifies : Certifies number validator .preCommit hash qc) :
      Climbs ladder (.phaseComplete .preCommit qc)
        { ladder with state := .committing, precommitQc := some qc }
  | commits (ladder : Ladder) (hash : Hash32) (qc : QuorumCertificate)
      (committing : ladder.state = .committing) (proposed : ladder.blockHash = some hash)
      (certifies : Certifies number validator .commit hash qc) :
      Climbs ladder (.decide hash number qc)
        { ladder with state := .decided, commitQc := some qc }
  | expires (ladder : Ladder) (running : ¬ Terminal ladder.state) :
      Climbs ladder .none { ladder with state := .failed }

inductive Climb : Ladder → List RoundAction → Ladder → Prop
  | start (ladder : Ladder) : Climb ladder [] ladder
  | next {ladder middle last : Ladder} {actions : List RoundAction} {action : RoundAction}
      (before : Climb ladder actions middle)
      (rung : Climbs number validator middle action last) :
      Climb ladder (actions ++ [action]) last

end Climbing

def formedBy : RoundAction → Option (BftPhase × QuorumCertificate)
  | .phaseComplete phase qc => some (phase, qc)
  | .decide _ _ qc => some (.commit, qc)
  | _ => none

def formed (actions : List RoundAction) : List (BftPhase × QuorumCertificate) :=
  actions.filterMap formedBy

def decisionOf : RoundAction → Option (Hash32 × UInt64 × QuorumCertificate)
  | .decide hash round qc => some (hash, round, qc)
  | _ => none

def decisions (actions : List RoundAction) : List (Hash32 × UInt64 × QuorumCertificate) :=
  actions.filterMap decisionOf

def held (ladder : Ladder) : List (BftPhase × QuorumCertificate) :=
  ladder.prepareQc.toList.map (BftPhase.prepare, ·) ++
    ladder.precommitQc.toList.map (BftPhase.preCommit, ·) ++
    ladder.commitQc.toList.map (BftPhase.commit, ·)

/-- Which certificates a round in some state holds. -/
def Rungs (ladder : Ladder) : Prop :=
  match ladder.state with
  | .awaitingProposal => ladder = .bottom
  | .preparing => ladder.prepareQc = none ∧ ladder.precommitQc = none ∧ ladder.commitQc = none
  | .preCommitting =>
    ladder.prepareQc.isSome ∧ ladder.precommitQc = none ∧ ladder.commitQc = none
  | .committing =>
    ladder.prepareQc.isSome ∧ ladder.precommitQc.isSome ∧ ladder.commitQc = none
  | .decided => ladder.prepareQc.isSome ∧ ladder.precommitQc.isSome ∧ ladder.commitQc.isSome
  | .failed => ladder.commitQc = none

/-- What a climb from the bottom has reported is what the round holds. -/
structure Sound (number : UInt64) (validator : QuorumValidator) (actions : List RoundAction)
    (ladder : Ladder) : Prop where
  formed_eq : formed actions = held ladder
  decisions_eq : decisions actions =
    ladder.commitQc.toList.map fun qc => (qc.blockHash, number, qc)
  certified : ∀ entry ∈ held ladder, ∃ hash, ladder.blockHash = some hash ∧
    Certifies number validator entry.1 hash entry.2
  rungs : Rungs ladder

section Ladders

variable {number : UInt64} {validator : QuorumValidator}

theorem bottom_sound : Sound number validator [] .bottom where
  formed_eq := rfl
  decisions_eq := rfl
  certified := by
    intro entry member
    cases member
  rungs := rfl

theorem formed_append (actions : List RoundAction) (action : RoundAction) :
    formed (actions ++ [action]) = formed actions ++ (formedBy action).toList := by
  simp only [formed, List.filterMap_append]
  cases found : formedBy action <;> simp [found]

theorem decisions_append (actions : List RoundAction) (action : RoundAction) :
    decisions (actions ++ [action]) = decisions actions ++ (decisionOf action).toList := by
  simp only [decisions, List.filterMap_append]
  cases found : decisionOf action <;> simp [found]

variable {actions : List RoundAction}

variable {ladder last : Ladder} {action : RoundAction}

theorem sound_quiet (sound : Sound number validator actions ladder)
    (silent : formedBy action = none) (undecided : decisionOf action = none)
    (same : held last = held ladder) (sameCommit : last.commitQc = ladder.commitQc)
    (kept : ∀ hash, ladder.blockHash = some hash → last.blockHash = some hash)
    (rungs : Rungs last) : Sound number validator (actions ++ [action]) last where
  formed_eq := by rw [formed_append, silent, sound.formed_eq, same]; simp
  decisions_eq := by rw [decisions_append, undecided, sound.decisions_eq, sameCommit]; simp
  certified := by
    intro entry member
    rw [same] at member
    obtain ⟨hash, proposed, certifies⟩ := sound.certified entry member
    exact ⟨hash, kept hash proposed, certifies⟩
  rungs := rungs

theorem sound_grows {phase : BftPhase} {hash : Hash32} {qc : QuorumCertificate}
    (sound : Sound number validator actions ladder) (reports : formedBy action = some (phase, qc))
    (proposed : ladder.blockHash = some hash) (kept : last.blockHash = ladder.blockHash)
    (certifies : Certifies number validator phase hash qc)
    (grown : held last = held ladder ++ [(phase, qc)])
    (decided : ladder.commitQc.toList.map (fun qc => (qc.blockHash, number, qc)) ++
      (decisionOf action).toList =
        last.commitQc.toList.map fun qc => (qc.blockHash, number, qc)) (rungs : Rungs last) :
    Sound number validator (actions ++ [action]) last where
  formed_eq := by rw [formed_append, reports, sound.formed_eq, grown]; rfl
  decisions_eq := by rw [decisions_append, sound.decisions_eq, decided]
  certified := by
    intro entry member
    rw [grown] at member
    rcases List.mem_append.mp member with before | last
    · obtain ⟨other, sameBlock, valid⟩ := sound.certified entry before
      have same : hash = other := Option.some.inj (proposed.symm.trans sameBlock)
      exact ⟨hash, kept.trans proposed, same ▸ valid⟩
    · rw [List.mem_singleton] at last
      subst last
      exact ⟨hash, kept.trans proposed, certifies⟩
  rungs := rungs

theorem decided_of_commit (rungs : Rungs ladder) (committed : ladder.commitQc ≠ none) :
    ladder.state = .decided := by
  unfold Rungs at rungs
  cases state : ladder.state with
  | awaitingProposal =>
    simp only [state] at rungs
    rw [rungs] at committed
    exact absurd rfl committed
  | decided => rfl
  | _ => simp [state, committed] at rungs

theorem sound_step (sound : Sound number validator actions ladder)
    (rung : Climbs number validator ladder action last) :
    Sound number validator (actions ++ [action]) last := by
  have rungs := sound.rungs
  cases rung with
  | stays => exact sound_quiet sound rfl rfl rfl rfl (fun _ same => same) rungs
  | proposes hash action quiet waiting =>
    -- Waiting is the bottom of the ladder: nothing is held yet.
    simp only [Rungs, waiting] at rungs
    subst rungs
    cases quiet with
    | leader other => exact sound_quiet sound rfl rfl rfl rfl nofun ⟨rfl, rfl, rfl⟩
    | follower vote => exact sound_quiet sound rfl rfl rfl rfl nofun ⟨rfl, rfl, rfl⟩
  | prepares hash qc preparing proposed certifies =>
    simp only [Rungs, preparing] at rungs
    obtain ⟨noPrepare, noPrecommit, noCommit⟩ := rungs
    refine sound_grows sound rfl proposed rfl certifies ?_ ?_ ?_
    · simp [held, noPrepare, noPrecommit, noCommit]
    · simp [decisionOf]
    · exact ⟨rfl, noPrecommit, noCommit⟩
  | precommits hash qc preCommitting proposed certifies =>
    simp only [Rungs, preCommitting] at rungs
    obtain ⟨hasPrepare, noPrecommit, noCommit⟩ := rungs
    refine sound_grows sound rfl proposed rfl certifies ?_ ?_ ?_
    · simp [held, noPrecommit, noCommit]
    · simp [decisionOf]
    · exact ⟨hasPrepare, rfl, noCommit⟩
  | commits hash qc committing proposed certifies =>
    simp only [Rungs, committing] at rungs
    obtain ⟨hasPrepare, hasPrecommit, noCommit⟩ := rungs
    refine sound_grows sound rfl proposed rfl certifies ?_ ?_ ?_
    · simp [held, noCommit]
    · simp [decisionOf, noCommit, certifies.2.2.1]
    · exact ⟨hasPrepare, hasPrecommit, rfl⟩
  | expires running =>
    refine sound_quiet sound rfl rfl rfl rfl (fun _ same => same) ?_
    show ladder.commitQc = none
    by_contra committed
    exact running (Or.inl (decided_of_commit rungs committed))

theorem climb_sound (climb : Climb number validator .bottom actions last) :
    Sound number validator actions last := by
  induction climb with
  | start => exact bottom_sound
  | next before rung ih => exact sound_step ih rung

theorem terminal_stays (terminal : Terminal ladder.state)
    (rung : Climbs number validator ladder action last) : last = ladder := by
  rcases terminal with decided | failed
  · cases rung <;> simp_all [Terminal]
  · cases rung <;> simp_all [Terminal]

theorem terminal_kept (terminal : Terminal ladder.state)
    (climb : Climb number validator ladder actions last) : last = ladder := by
  induction climb with
  | start => rfl
  | next before rung ih =>
    subst ih
    exact terminal_stays terminal rung

theorem block_hash_kept {before : List RoundAction} {hash : Hash32}
    (sound : Sound number validator before ladder) (proposed : ladder.blockHash = some hash)
    (climb : Climb number validator ladder actions last) : last.blockHash = some hash := by
  suffices both : last.blockHash = some hash ∧
      Sound number validator (before ++ actions) last from both.1
  induction climb with
  | start =>
    rw [List.append_nil]
    exact ⟨proposed, sound⟩
  | next earlier rung ih =>
    obtain ⟨kept, soundBefore⟩ := ih
    rw [← List.append_assoc]
    refine ⟨?_, sound_step soundBefore rung⟩
    have rungs := soundBefore.rungs
    cases rung with
    | proposes other action quiet waiting =>
      simp only [Rungs, waiting] at rungs
      -- A second proposal would need a round that has no block.
      rw [rungs] at kept
      cases kept
    | _ => exact kept

end Ladders

def ladderOf (round : BftRound) : Ladder :=
  ⟨round.state, round.blockHash, round.prepareQc, round.precommitQc, round.commitQc⟩

/-- The round keeps its configuration, has no block before the proposal, and
every collector gathers votes of its own phase for the block under vote. -/
structure Aligned (number : UInt64) (validator : QuorumValidator) (round : BftRound) : Prop where
  number_eq : round.round = number
  validator_eq : QuorumValidator.new round.validators round.verifier = validator
  waiting : round.state = .awaitingProposal → round.blockHash = none
  collecting : ∀ phase collector, round.collector phase = some collector →
    collector.phase = phase ∧ collector.round = number ∧
      collector.quorumValidator = validator ∧ round.blockHash = some collector.blockHash

section Simulation

variable {number : UInt64} {validator : QuorumValidator} {round : BftRound}

@[simp] theorem ladder_set_collector (round : BftRound) (collector : VoteCollector)
    (phase : BftPhase) : ladderOf (round.setCollector collector phase) = ladderOf round := by
  cases phase <;> rfl

@[simp] theorem ladder_ensure_collector (round : BftRound) (phase : BftPhase) (hash : Hash32) :
    ladderOf (round.ensureCollector phase hash) = ladderOf round := by
  unfold BftRound.ensureCollector
  split
  · rfl
  · exact ladder_set_collector _ _ _

theorem collector_set_collector (round : BftRound) (collector : VoteCollector)
    (phase other : BftPhase) (slot : phase ≠ .decide) :
    (round.setCollector collector phase).collector other =
      if other = phase then some collector else round.collector other := by
  cases phase <;> cases other <;> first | rfl | exact absurd rfl slot

theorem aligned_set_collector (aligned : Aligned number validator round) {phase : BftPhase}
    {collector : VoteCollector} (samePhase : collector.phase = phase)
    (sameRound : collector.round = number) (sameValidator : collector.quorumValidator = validator)
    (sameHash : round.blockHash = some collector.blockHash) :
    Aligned number validator (round.setCollector collector phase) := by
  have sameLadder := ladder_set_collector round collector phase
  have sameBlock : (round.setCollector collector phase).blockHash = round.blockHash :=
    congrArg Ladder.blockHash sameLadder
  have sameState : (round.setCollector collector phase).state = round.state :=
    congrArg Ladder.state sameLadder
  constructor
  · rw [← aligned.number_eq]
    cases phase <;> rfl
  · rw [← aligned.validator_eq]
    cases phase <;> rfl
  · rw [sameBlock, sameState]
    exact aligned.waiting
  · intro other found present
    rw [sameBlock]
    -- There is no slot for `Decide`, so nothing is stored then.
    by_cases slot : phase = .decide
    · subst slot
      exact aligned.collecting other found present
    · rw [collector_set_collector round collector phase other slot] at present
      split at present
      · rename_i same
        cases present
        exact ⟨samePhase.trans same.symm, sameRound, sameValidator, sameHash⟩
      · exact aligned.collecting other found present

theorem aligned_ensure_collector (aligned : Aligned number validator round) (phase : BftPhase)
    {hash : Hash32} (proposed : round.blockHash = some hash) :
    Aligned number validator (round.ensureCollector phase hash) := by
  unfold BftRound.ensureCollector
  split
  · exact aligned
  · exact aligned_set_collector aligned rfl aligned.number_eq aligned.validator_eq proposed

theorem aligned_update (aligned : Aligned number validator round) {changed : BftRound}
    (sameNumber : changed.round = round.round) (sameValidators : changed.validators = round.validators)
    (sameVerifier : changed.verifier = round.verifier)
    (sameBlock : changed.blockHash = round.blockHash)
    (sameCollectors : changed.collector = round.collector)
    (under : changed.state ≠ .awaitingProposal) : Aligned number validator changed where
  number_eq := sameNumber.trans aligned.number_eq
  validator_eq := by rw [sameValidators, sameVerifier, aligned.validator_eq]
  waiting := fun state => absurd state under
  collecting := by
    rw [sameCollectors, sameBlock]
    exact aligned.collecting

/-- Before the proposal there is no collector, so all of them come after it. -/
theorem aligned_propose (aligned : Aligned number validator round)
    (waiting : round.state = .awaitingProposal) (hash : Hash32) :
    Aligned number validator { round with blockHash := some hash, state := .preparing } where
  number_eq := aligned.number_eq
  validator_eq := aligned.validator_eq
  waiting := nofun
  collecting := by
    intro phase collector present
    -- A collector from before would already name a block.
    have known := (aligned.collecting phase collector (by cases phase <;> exact present)).2.2.2
    rw [aligned.waiting waiting] at known
    cases known

theorem on_vote_cases (aligned : Aligned number validator round) (listing : Arrangement VoteMessage)
    (phase : BftPhase) (vote : VoteMessage) {hash : Hash32}
    (proposed : round.blockHash = some hash) :
    ∃ counted, Aligned number validator counted ∧ ladderOf counted = ladderOf round ∧
      (round.onVote listing phase vote hash = (counted, .none) ∨
        ∃ qc, Certifies number validator phase hash qc ∧
          round.onVote listing phase vote hash = counted.advancePhase phase qc hash) := by
  have ensured := aligned_ensure_collector aligned phase proposed
  have sameLadder := ladder_ensure_collector round phase hash
  unfold BftRound.onVote
  cases found : (round.ensureCollector phase hash).collector phase with
  | none => exact ⟨_, ensured, sameLadder, Or.inl (by simp only [found])⟩
  | some collector =>
    obtain ⟨samePhase, sameRound, sameValidator, sameHash⟩ := ensured.collecting phase _ found
    obtain ⟨keptPhase, keptRound, keptHash, keptValidator, reached⟩ :=
      collector.add_vote_cases listing vote
    -- The collector may stem from an earlier call, but it is for the same block.
    have hashEq : collector.blockHash = hash := by
      have block : (round.ensureCollector phase hash).blockHash = some hash :=
        (congrArg Ladder.blockHash sameLadder).trans proposed
      exact Option.some.inj (sameHash.symm.trans block)
    refine ⟨(round.ensureCollector phase hash).setCollector
      (collector.addVote listing vote).1 phase, ?_, ?_, ?_⟩
    · apply aligned_set_collector ensured
      · rw [keptPhase, samePhase]
      · rw [keptRound, sameRound]
      · rw [keptValidator, sameValidator]
      · rw [keptHash, sameHash]
    · rw [ladder_set_collector, sameLadder]
    · simp only [found]
      cases answered : (collector.addVote listing vote).2 with
      | pending count => exact Or.inl rfl
      | rejected reason => exact Or.inl rfl
      | quorumReached qc =>
        right
        have certifies := reached qc answered
        rw [samePhase, sameRound, sameValidator, hashEq] at certifies
        exact ⟨qc, certifies, rfl⟩

def Steps (number : UInt64) (validator : QuorumValidator) (round : BftRound)
    (outcome : BftRound × RoundAction) : Prop :=
  Aligned number validator outcome.1 ∧
    Climbs number validator (ladderOf round) outcome.2 (ladderOf outcome.1)

theorem idle_steps (aligned : Aligned number validator round) :
    Steps number validator round (round, .none) :=
  ⟨aligned, .stays _⟩

theorem propose_steps (aligned : Aligned number validator round)
    (waiting : round.state = .awaitingProposal) (hash : Hash32) {action : RoundAction}
    (quiet : Proposes action) :
    Steps number validator round
      (BftRound.ensureCollector { round with blockHash := some hash, state := .preparing }
        .prepare hash, action) := by
  constructor
  · exact aligned_ensure_collector (aligned_propose aligned waiting hash) .prepare rfl
  · rw [ladder_ensure_collector]
    exact .proposes (ladderOf round) hash action quiet waiting

def collects : RoundState → Option BftPhase
  | .preparing => some .prepare
  | .preCommitting => some .preCommit
  | .committing => some .commit
  | _ => none

theorem advance_steps {counted : BftRound} (aligned : Aligned number validator counted)
    (sameLadder : ladderOf counted = ladderOf round) {phase : BftPhase} {hash : Hash32}
    {qc : QuorumCertificate} (proposed : counted.blockHash = some hash)
    (collecting : collects counted.state = some phase)
    (certifies : Certifies number validator phase hash qc) :
    Steps number validator round (counted.advancePhase phase qc hash) := by
  unfold Steps
  rw [← sameLadder]
  cases state : counted.state with
  | preparing =>
    rw [state] at collecting
    cases collecting
    constructor
    · have changed : Aligned number validator
          { counted with prepareQc := some qc, state := .preCommitting } :=
        aligned_update aligned rfl rfl rfl rfl (funext fun phase => by cases phase <;> rfl) nofun
      exact aligned_ensure_collector changed .preCommit proposed
    · rw [BftRound.advancePhase, ladder_ensure_collector]
      exact .prepares (ladderOf counted) hash qc state proposed certifies
  | preCommitting =>
    rw [state] at collecting
    cases collecting
    constructor
    · have changed : Aligned number validator
          { counted with precommitQc := some qc, state := .committing } :=
        aligned_update aligned rfl rfl rfl rfl (funext fun phase => by cases phase <;> rfl) nofun
      exact aligned_ensure_collector changed .commit proposed
    · rw [BftRound.advancePhase, ladder_ensure_collector]
      exact .precommits (ladderOf counted) hash qc state proposed certifies
  | committing =>
    rw [state] at collecting
    cases collecting
    constructor
    · exact aligned_update aligned rfl rfl rfl rfl (funext fun phase => by cases phase <;> rfl)
        nofun
    · rw [BftRound.advancePhase, aligned.number_eq]
      exact .commits (ladderOf counted) hash qc state proposed certifies
  | _ => simp [state, collects] at collecting

theorem on_vote_steps (aligned : Aligned number validator round)
    (listing : Arrangement VoteMessage) {phase : BftPhase} (vote : VoteMessage) {hash : Hash32}
    (proposed : round.blockHash = some hash) (collecting : collects round.state = some phase) :
    Steps number validator round (round.onVote listing phase vote hash) := by
  obtain ⟨counted, kept, sameLadder, unchanged | ⟨qc, certifies, advanced⟩⟩ :=
    on_vote_cases aligned listing phase vote proposed
  · rw [unchanged]
    refine ⟨kept, ?_⟩
    rw [sameLadder]
    exact .stays _
  · rw [advanced]
    have sameBlock : counted.blockHash = round.blockHash := congrArg Ladder.blockHash sameLadder
    have sameState : counted.state = round.state := congrArg Ladder.state sameLadder
    exact advance_steps kept sameLadder (sameBlock.trans proposed)
      (by rw [sameState]; exact collecting) certifies

theorem vote_steps (aligned : Aligned number validator round) (listing : Arrangement VoteMessage)
    (vote : VoteMessage) : Steps number validator round (round.handleVote listing vote) := by
  unfold BftRound.handleVote
  cases proposed : round.blockHash with
  | none => exact idle_steps aligned
  | some hash =>
    dsimp only
    split
    · rename_i state
      exact on_vote_steps aligned listing vote proposed (by rw [state]; rfl)
    · rename_i state
      exact on_vote_steps aligned listing vote proposed (by rw [state]; rfl)
    · rename_i state
      exact on_vote_steps aligned listing vote proposed (by rw [state]; rfl)
    · exact idle_steps aligned

theorem timeout_steps (aligned : Aligned number validator round) :
    Steps number validator round round.handleTimeout := by
  unfold BftRound.handleTimeout
  split
  · rename_i running
    simp only [ne_eq, Bool.and_eq_true, decide_eq_true_eq] at running
    constructor
    · exact aligned_update aligned rfl rfl rfl rfl (funext fun phase => by cases phase <;> rfl)
        nofun
    · apply Climbs.expires (ladderOf round)
      rintro (decided | failed)
      · exact running.1 decided
      · exact running.2 failed
  · exact idle_steps aligned

theorem waiting_of_allowed {refusal : Bool}
    (allowed : ¬ (decide (round.state ≠ .awaitingProposal) || refusal) = true) :
    round.state = .awaitingProposal := by
  by_contra other
  simp [other] at allowed

theorem process_steps (aligned : Aligned number validator round)
    (listing : Arrangement VoteMessage) (event : RoundEvent) :
    Steps number validator round (round.process listing event) := by
  cases event with
  | startAsLeader hash =>
    simp only [BftRound.process, BftRound.handleStartAsLeader]
    split
    · exact idle_steps aligned
    · next allowed => exact propose_steps aligned (waiting_of_allowed allowed) hash (.leader hash)
  | proposal hash leaderId =>
    simp only [BftRound.process, BftRound.handleProposal]
    split
    · exact idle_steps aligned
    · next allowed => exact propose_steps aligned (waiting_of_allowed allowed) hash (.follower _)
  | vote vote => exact vote_steps aligned listing vote
  | timeout => exact timeout_steps aligned

theorem new_aligned (number : UInt64) (nodeId leaderId : String) (validators : List String)
    (verifier : SignatureVerifier) :
    Aligned number (QuorumValidator.new validators verifier)
      (BftRound.new number nodeId leaderId validators verifier) where
  number_eq := rfl
  validator_eq := rfl
  waiting := fun _ => rfl
  collecting := by
    intro phase collector present
    cases phase <;> cases present

end Simulation

section Runs

variable {number : UInt64} {validator : QuorumValidator}

theorem run_append (round : BftRound)
    (earlier later : List (Arrangement VoteMessage × RoundEvent)) :
    run round (earlier ++ later) =
      ((run (run round earlier).1 later).1,
        (run round earlier).2 ++ (run (run round earlier).1 later).2) := by
  induction earlier generalizing round with
  | nil => rfl
  | cons input rest ih =>
    obtain ⟨listing, event⟩ := input
    simp only [List.cons_append, run, ih]

theorem run_climbs {round : BftRound} (aligned : Aligned number validator round)
    (inputs : List (Arrangement VoteMessage × RoundEvent)) :
    Aligned number validator (run round inputs).1 ∧
      Climb number validator (ladderOf round) (run round inputs).2
        (ladderOf (run round inputs).1) := by
  induction inputs using List.reverseRecOn with
  | nil => exact ⟨aligned, .start _⟩
  | append_singleton earlier input ih =>
    -- Events are taken off the end, where a climb grows.
    obtain ⟨kept, climb⟩ := ih
    obtain ⟨listing, event⟩ := input
    rw [run_append]
    obtain ⟨keptAfter, rung⟩ := process_steps kept listing event
    exact ⟨keptAfter, .next climb rung⟩

end Runs

/-- Everything a decision stands on: the block, the three certificates that
the round holds, and that they were formed in this order. -/
structure DecidedOn (number : UInt64) (validator : QuorumValidator) (final : BftRound)
    (actions : List RoundAction) (hash : Hash32) (commitQc : QuorumCertificate) : Prop where
  block : final.blockHash = some hash
  certificates : ∃ prepareQc precommitQc,
    final.prepareQc = some prepareQc ∧ final.precommitQc = some precommitQc ∧
    final.commitQc = some commitQc ∧
    Certifies number validator .prepare hash prepareQc ∧
    Certifies number validator .preCommit hash precommitQc ∧
    Certifies number validator .commit hash commitQc ∧
    formed actions = [(.prepare, prepareQc), (.preCommit, precommitQc), (.commit, commitQc)]

structure Safe (number : UInt64) (validator : QuorumValidator) (start : BftRound)
    (inputs : List (Arrangement VoteMessage × RoundEvent)) : Prop where
  decides_once : (decisions (run start inputs).2).length ≤ 1
  decided_on : ∀ hash round qc, .decide hash round qc ∈ (run start inputs).2 →
    round = number ∧
      DecidedOn number validator (run start inputs).1 (run start inputs).2 hash qc
  single_block : ∀ earlier later, inputs = earlier ++ later → ∀ hash,
    (run start earlier).1.blockHash = some hash → (run start inputs).1.blockHash = some hash
  frozen : ∀ earlier later, inputs = earlier ++ later →
    Terminal (run start earlier).1.state →
      ladderOf (run start inputs).1 = ladderOf (run start earlier).1

section Decisions

variable {number : UInt64} {validator : QuorumValidator}

theorem decided_of_sound {final : BftRound} (sound : Sound number validator actions (ladderOf final))
    {hash : Hash32} {round : UInt64} {qc : QuorumCertificate}
    (decided : .decide hash round qc ∈ actions) :
    round = number ∧ DecidedOn number validator final actions hash qc := by
  have reported : (hash, round, qc) ∈ decisions actions :=
    List.mem_filterMap.mpr ⟨_, decided, rfl⟩
  rw [sound.decisions_eq] at reported
  obtain ⟨certificate, member, same⟩ := List.mem_map.mp reported
  have committed : (ladderOf final).commitQc = some certificate := Option.mem_toList.mp member
  cases same
  have rungs := sound.rungs
  simp only [Rungs, decided_of_commit rungs (by rw [committed]; nofun)] at rungs
  obtain ⟨hasPrepare, hasPrecommit, -⟩ := rungs
  obtain ⟨prepareQc, prepared⟩ := Option.isSome_iff_exists.mp hasPrepare
  obtain ⟨precommitQc, precommitted⟩ := Option.isSome_iff_exists.mp hasPrecommit
  have heldAll : held (ladderOf final) =
      [(.prepare, prepareQc), (.preCommit, precommitQc), (.commit, qc)] := by
    simp [held, prepared, precommitted, committed]
  obtain ⟨block, proposed, commitValid⟩ := sound.certified (.commit, qc) (by rw [heldAll]; simp)
  -- The ladder has one block, so the three certificates are for the same one.
  have certified : ∀ entry ∈ held (ladderOf final),
      Certifies number validator entry.1 qc.blockHash entry.2 := by
    intro entry inside
    obtain ⟨other, proposed', valid⟩ := sound.certified entry inside
    have same : block = other := Option.some.inj (proposed.symm.trans proposed')
    rw [commitValid.2.2.1, same]
    exact valid
  refine ⟨rfl, ?_, prepareQc, precommitQc, prepared, precommitted, committed, ?_, ?_, ?_, ?_⟩
  · rw [commitValid.2.2.1]
    exact proposed
  · exact certified (.prepare, prepareQc) (by rw [heldAll]; simp)
  · exact certified (.preCommit, precommitQc) (by rw [heldAll]; simp)
  · exact certified (.commit, qc) (by rw [heldAll]; simp)
  · rw [sound.formed_eq, heldAll]

end Decisions

theorem round_safe (number : UInt64) (nodeId leaderId : String) (validators : List String)
    (verifier : SignatureVerifier) (inputs : List (Arrangement VoteMessage × RoundEvent)) :
    Safe number (QuorumValidator.new validators verifier)
      (BftRound.new number nodeId leaderId validators verifier) inputs := by
  have aligned := new_aligned number nodeId leaderId validators verifier
  have sound := climb_sound (run_climbs aligned inputs).2
  constructor
  · rw [sound.decisions_eq, List.length_map]
    cases (ladderOf _).commitQc <;> simp
  · intro hash round qc decided
    exact decided_of_sound sound decided
  · intro earlier later split hash proposed
    obtain ⟨keptAligned, climb⟩ := run_climbs aligned earlier
    have rest := (run_climbs keptAligned later).2
    rw [split, run_append]
    exact block_hash_kept (climb_sound climb) proposed rest
  · intro earlier later split terminal
    have keptAligned := (run_climbs aligned earlier).1
    rw [split, run_append]
    exact terminal_kept terminal (run_climbs keptAligned later).2

def castVotes (phase : BftPhase) (hash : Hash32) (voters : List String) :
    List (Arrangement VoteMessage × RoundEvent) :=
  voters.map fun voter => (.asStored, .vote ⟨hash, 0, phase, voter, [1]⟩)

def fullRound (hash : Hash32) : List (Arrangement VoteMessage × RoundEvent) :=
  (.asStored, .startAsLeader hash) ::
    (castVotes .prepare hash ["v1", "v2", "v3"] ++ castVotes .preCommit hash ["v1", "v2", "v3"] ++
      castVotes .commit hash ["v1", "v2", "v3"])

example : (decisions (run (BftRound.new 0 "v1" "v1" ["v1", "v2", "v3", "v4"]
    fun _ _ signature => !signature.isEmpty) (fullRound firstHash)).2).length = 1 := by
  decide +kernel

end CeruleanLedger.RoundSafety

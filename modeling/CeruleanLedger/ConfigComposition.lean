import CeruleanLedger.ConfigUpdate

/-!
Config updates compose: applying two lists of updates together gives what applying
them one after the other gives, up to the version, which counts the calls. Along
any sequence of accepted updates the members stay distinct, and an organisation
is a member as its last addition or removal says.
-/

namespace CeruleanLedger.ConfigComposition

open ConfigUpdate

def withVersion (version : UInt64) (config : ChannelConfig) : ChannelConfig :=
  { config with version }

theorem apply_update_version (version : UInt64) (config : ChannelConfig)
    (update : ConfigUpdateType) :
    applyUpdate (withVersion version config) update =
      (applyUpdate config update).map (withVersion version) := by
  cases update with
  | addOrg org =>
    cases present : config.memberOrgs.contains org with
    | true => simp only [applyUpdate, withVersion, present, if_true, Except.map]
    | false =>
      simp only [applyUpdate, withVersion, present, Bool.false_eq_true, if_false, Except.map]
  | removeOrg org =>
    cases found : config.memberOrgs.findIdx? (· == org) with
    | none => simp only [applyUpdate, withVersion, found, Except.map]
    | some pos => simp only [applyUpdate, withVersion, found, Except.map]
  | _ => rfl

theorem apply_updates_version (version : UInt64) (config : ChannelConfig)
    (updates : List ConfigUpdateType) :
    updates.foldlM applyUpdate (withVersion version config) =
      (updates.foldlM applyUpdate config).map (withVersion version) := by
  induction updates generalizing config with
  | nil => rfl
  | cons update rest ih =>
    rw [List.foldlM_cons, List.foldlM_cons, apply_update_version]
    cases applyUpdate config update with
    | error reason => rfl
    | ok next => exact ih next

theorem apply_config_update_append (config : ChannelConfig)
    (earlier later : List ConfigUpdateType) :
    (applyConfigUpdate config (earlier ++ later)).map (withVersion 0) =
      ((applyConfigUpdate config earlier).bind fun next => applyConfigUpdate next later).map
        (withVersion 0) := by
  unfold applyConfigUpdate
  rw [List.foldlM_append]
  cases earlier.foldlM applyUpdate config with
  | error reason => rfl
  | ok middle =>
    have counted := apply_updates_version (middle.version + 1) middle later
    simp only [Except.map, Except.bind, bind, withVersion] at counted ⊢
    rw [counted]
    cases later.foldlM applyUpdate middle with
    | error reason => rfl
    | ok last => rfl

section Members

def membershipChange (org : String) : ConfigUpdateType → Option Bool
  | .addOrg added => if added = org then some true else none
  | .removeOrg removed => if removed = org then some false else none
  | _ => none

/-- The last addition (`true`) or removal (`false`) of the organisation. -/
def lastChange (org : String) (updates : List ConfigUpdateType) : Option Bool :=
  (updates.filterMap (membershipChange org)).getLast?

theorem last_change_append (org : String) (earlier later : List ConfigUpdateType)
    (initial : Bool) :
    (lastChange org (earlier ++ later)).getD initial =
      (lastChange org later).getD ((lastChange org earlier).getD initial) := by
  simp only [lastChange, List.filterMap_append, List.getLast?_append]
  cases (later.filterMap (membershipChange org)).getLast? with
  | none => rfl
  | some last => rfl

structure Follows (initial : List String) (updates : List ConfigUpdateType)
    (members : List String) : Prop where
  distinct : members.Nodup
  member : ∀ org, org ∈ members ↔ (lastChange org updates).getD (decide (org ∈ initial)) = true

variable {config next : ChannelConfig} {members : List String}

theorem Follows.start (distinct : members.Nodup) :
    Follows members [] members := ⟨distinct, fun org => by simp [lastChange]⟩

theorem Follows.trans {initial middle : List String} {earlier later : List ConfigUpdateType}
    (first : Follows initial earlier middle) (second : Follows middle later members) :
    Follows initial (earlier ++ later) members := by
  refine ⟨second.distinct, fun org => ?_⟩
  have before : decide (org ∈ middle) =
      (lastChange org earlier).getD (decide (org ∈ initial)) := by
    rw [Bool.eq_iff_iff, decide_eq_true_eq]
    exact first.member org
  rw [second.member org, last_change_append, before]

theorem follows_added (distinct : members.Nodup) {org : String} (absent : org ∉ members) :
    Follows members [.addOrg org] (members ++ [org]) := by
  refine ⟨distinct.append (List.nodup_singleton org) (List.disjoint_singleton.mpr absent), ?_⟩
  intro other
  by_cases same : org = other
  · simp [lastChange, membershipChange, same]
  · simp [lastChange, membershipChange, same, Ne.symm same]

theorem follows_removed (distinct : members.Nodup) (org : String) :
    Follows members [.removeOrg org] (members.erase org) := by
  refine ⟨distinct.erase org, fun other => ?_⟩
  rw [distinct.mem_erase_iff]
  by_cases same : org = other
  · simp [lastChange, membershipChange, same]
  · simp [lastChange, membershipChange, same, Ne.symm same]

theorem apply_update_follows {update : ConfigUpdateType} (distinct : config.memberOrgs.Nodup)
    (applied : applyUpdate config update = .ok next) :
    Follows config.memberOrgs [update] next.memberOrgs := by
  cases update with
  | addOrg org =>
    simp only [applyUpdate] at applied
    split at applied
    · cases applied
    · next absent =>
      cases applied
      exact follows_added distinct fun member => absent (List.contains_iff_mem.mpr member)
  | removeOrg org =>
    simp only [applyUpdate] at applied
    split at applied
    · cases applied
    · next pos found =>
      cases applied
      -- The first place that holds the organisation is the one that `erase` drops.
      have erased : config.memberOrgs.erase org = config.memberOrgs.eraseIdx pos := by
        rw [List.erase_eq_eraseP', List.eraseP_eq_eraseIdx, found]
      exact erased ▸ follows_removed distinct org
  | _ =>
    cases applied
    exact ⟨distinct, fun org => by simp [lastChange, membershipChange]⟩

theorem apply_updates_follows {updates : List ConfigUpdateType}
    (distinct : config.memberOrgs.Nodup) (applied : updates.foldlM applyUpdate config = .ok next) :
    Follows config.memberOrgs updates next.memberOrgs := by
  induction updates generalizing config with
  | nil =>
    cases applied
    exact .start distinct
  | cons update rest ih =>
    rw [List.foldlM_cons] at applied
    cases first : applyUpdate config update with
    | error reason =>
      rw [first] at applied
      cases applied
    | ok middle =>
      rw [first] at applied
      have step := apply_update_follows distinct first
      exact step.trans (ih step.distinct applied)

theorem apply_config_update_follows {updates : List ConfigUpdateType}
    (distinct : config.memberOrgs.Nodup) (applied : applyConfigUpdate config updates = .ok next) :
    Follows config.memberOrgs updates next.memberOrgs := by
  unfold applyConfigUpdate at applied
  cases ran : updates.foldlM applyUpdate config with
  | error reason =>
    rw [ran] at applied
    cases applied
  | ok last =>
    rw [ran] at applied
    have follows := apply_updates_follows distinct ran
    cases applied
    exact follows

theorem reached_follows {reached : ChannelConfig} {calls : List (List ConfigUpdateType)}
    (distinct : config.memberOrgs.Nodup)
    (applied : calls.foldlM applyConfigUpdate config = .ok reached) :
    Follows config.memberOrgs calls.flatten reached.memberOrgs := by
  induction calls generalizing config with
  | nil =>
    cases applied
    exact .start distinct
  | cons updates rest ih =>
    rw [List.foldlM_cons] at applied
    cases first : applyConfigUpdate config updates with
    | error reason =>
      rw [first] at applied
      cases applied
    | ok middle =>
      rw [first] at applied
      have step := apply_config_update_follows distinct first
      exact step.trans (ih step.distinct applied)

end Members

/-- Updates compose, errors included, and the members follow the last changes. -/
theorem config_updates_compose (config : ChannelConfig) (distinct : config.memberOrgs.Nodup) :
    (∀ earlier later : List ConfigUpdateType,
      (applyConfigUpdate config (earlier ++ later)).map (withVersion 0) =
        ((applyConfigUpdate config earlier).bind fun next => applyConfigUpdate next later).map
          (withVersion 0)) ∧
    ∀ (calls : List (List ConfigUpdateType)) (reached : ChannelConfig),
      calls.foldlM applyConfigUpdate config = .ok reached →
        reached.memberOrgs.Nodup ∧ ∀ org, org ∈ reached.memberOrgs ↔
          lastChange org calls.flatten = some true ∨
            (lastChange org calls.flatten = none ∧ org ∈ config.memberOrgs) := by
  refine ⟨apply_config_update_append config, fun calls reached applied => ?_⟩
  have follows := reached_follows distinct applied
  refine ⟨follows.distinct, fun org => ?_⟩
  rw [follows.member org]
  cases lastChange org calls.flatten with
  | none => simp
  | some change => simp

def twoMembers : ChannelConfig := { memberOrgs := ["A", "B"] }

def rejoinCalls : List (List ConfigUpdateType) :=
  [[.removeOrg "A", .setBatchSize 10], [.addOrg "C", .addOrg "A"]]

theorem rejoined_members :
    ∃ reached, rejoinCalls.foldlM applyConfigUpdate twoMembers = .ok reached ∧
      "A" ∈ reached.memberOrgs ∧ "B" ∈ reached.memberOrgs ∧ reached.memberOrgs.Nodup :=
  have reached := (config_updates_compose twoMembers (by decide)).2 rejoinCalls _ rfl
  ⟨_, rfl, (reached.2 "A").mpr (Or.inl (by decide)),
    (reached.2 "B").mpr (Or.inr (by decide)), reached.1⟩

end CeruleanLedger.ConfigComposition

import Mathlib.Data.List.Nodup
import RingStore.Proofs.Cluster.Coordinator

/-!
# What a coordinator asks of the members

To a coordinator the surroundings are an oracle: it gives a member an *errand*, a command line to
execute, and the reply decides whether there is another one. Which errands these can be, and in
which order, depends on the command line alone. Hence whatever every errand preserves is preserved
by the whole, and surroundings in which the errands go alike cannot be told apart.

## Main definitions

* `Errand`, `Coordinator.errands`: what members are asked to do for a command line, at most.
* `Coordinator.Entrusts`: the same as a relation, with one case for each strategy.
* `Plan`, `Coordinator.plan`: what a coordinator does, as decided by the replies.

## Main results

* `Coordinator.routeLine_eq_run`, `Coordinator.within_plan`: a coordinator carries out its plan for
  a line, and that is within the errands for the line.
* `Coordinator.exec_eq_carryOut`: it has its errands done one after the other, maybe not all.
* `Coordinator.exec_congr`: errands that go alike make the same whole.
* `Coordinator.exec_of_asked`: what another member asks is done by the member itself.
-/

namespace RingStore

/-- What one member is asked to do. -/
structure Errand where
  /-- The member. -/
  member : String
  /-- The command line that it is to execute. -/
  line : CommandLine
  deriving DecidableEq

/-- What a coordinator does, as decided by the replies that it gets. -/
inductive Plan where
  /-- It is done. -/
  | finish (outcome : Outcome)
  /-- It has a member do something, and the reply decides what comes next. -/
  | ask (errand : Errand) (next : Value → Plan)

/-- Whatever the replies, a plan asks for some of these errands, from the first one on. -/
inductive Plan.Within : Plan → List Errand → Prop where
  /-- It asks for none. -/
  | finish (outcome : Outcome) (errands : List Errand) : Within (.finish outcome) errands
  /-- It asks for the first one and goes on within the others. -/
  | ask {errand : Errand} {next : Value → Plan} {rest : List Errand}
      (more : ∀ reply, Within (next reply) rest) : Within (.ask errand next) (errand :: rest)

namespace Plan

variable {σ : Type}

/-- Carries out a plan. -/
def run (coordinator : Coordinator) (surroundings : Surroundings σ) :
    Plan → σ → Session → Routed σ
  | finish outcome, state, session => ⟨state, session, outcome⟩
  | ask errand next, state, session =>
    let served := coordinator.relay surroundings errand.member state session errand.line
    (next served.reply).run coordinator surroundings served.state served.session

/-- The replies that come in while a plan is carried out, the first one first. -/
def heard (coordinator : Coordinator) (surroundings : Surroundings σ) :
    Plan → σ → Session → List Value
  | finish _, _, _ => []
  | ask errand next, state, session =>
    let served := coordinator.relay surroundings errand.member state session errand.line
    served.reply :: (next served.reply).heard coordinator surroundings served.state served.session

end Plan

namespace Coordinator

/-- What a coordinator does if it asks for nothing and refuses the line. -/
def refuse (refusal : Refusal) : Plan :=
  .finish (.reply refusal.reply)

/-- What a coordinator does if nothing more is asked after the first reply. -/
def askOnce (errand : Errand) : Plan :=
  .ask errand fun reply => .finish (.reply reply)

/-- Has members execute a command line one after the other; the replies are put together at the
end. -/
def askAll (merge : Merge) : List Errand → List Value → Plan
  | [], replies => .finish (merge.combine replies)
  | errand :: rest, replies => .ask errand fun reply => askAll merge rest (replies ++ [reply])

/-- Has owners execute their parts one after the other and adds up the numbers. -/
def askOwners (total : Int64) : List Errand → Plan
  | [] => .finish (.reply (.integer total))
  | errand :: rest => .ask errand fun reply =>
    match reply with
    | .integer count =>
      match addChecked total count with
      | some sum => askOwners sum rest
      | none => .finish .fault
    | .error text => .finish (.reply (.error text))
    | reply => .finish (.reply (Refusal.notACount errand.member reply).reply)

variable (coordinator : Coordinator)

/-- What members are asked to do for a command line that is routed by a strategy. -/
def errandsBy (name : Bytes) (arguments : List Bytes) : Route → List Errand
  | .here => [⟨coordinator.self, name :: arguments⟩]
  | .firstKey =>
    match arguments with
    | [] => []
    | key :: _ => [⟨coordinator.owner key, name :: arguments⟩]
  | .splitKeys => (coordinator.groupKeys arguments).map fun group => ⟨group.1, name :: group.2⟩
  | .sameOwner =>
    match arguments with
    | [source, target] =>
      if coordinator.owner source = coordinator.owner target then
        [⟨coordinator.owner source, name :: arguments⟩]
      else []
    | _ => []
  | .broadcast _ => coordinator.members.map fun member =>
      ⟨member, coordinator.lineFor member (name :: arguments)⟩
  | .forwarded =>
    match arguments with
    | [] => []
    | inner :: _ =>
      match route? (Text.lowercase (Text.ofBytes inner)) with
      | some (.broadcast _) => [⟨coordinator.self, arguments⟩]
      | _ => []

/-- What members are asked to do for a command line, if every reply lets it go on. -/
def errands : CommandLine → List Errand
  | [] => []
  | name :: arguments =>
    match route? (Text.lowercase (Text.ofBytes name)) with
    | none => []
    | some route => coordinator.errandsBy name arguments route

/-- What a coordinator does for a command line that is routed by a strategy. -/
def planBy (name : Bytes) (arguments : List Bytes) : Route → Plan
  | .here => askOnce ⟨coordinator.self, name :: arguments⟩
  | .firstKey =>
    match arguments with
    | [] => refuse (.wrongArity (Text.lowercase (Text.ofBytes name)))
    | key :: _ => askOnce ⟨coordinator.owner key, name :: arguments⟩
  | .splitKeys =>
    match arguments with
    | [] => refuse (.wrongArity (Text.lowercase (Text.ofBytes name)))
    | keys => askOwners 0 <|
      (coordinator.groupKeys keys).map fun group => ⟨group.1, name :: group.2⟩
  | .sameOwner =>
    match arguments with
    | [source, target] =>
      if coordinator.owner source = coordinator.owner target then
        askOnce ⟨coordinator.owner source, name :: arguments⟩
      else refuse .ownersDiffer
    | _ => refuse (.wrongArity (Text.lowercase (Text.ofBytes name)))
  | .broadcast merge => askAll merge
      (coordinator.members.map fun member =>
        ⟨member, coordinator.lineFor member (name :: arguments)⟩) []
  | .forwarded =>
    match arguments with
    | [] => refuse (.wrongArity forwardedName)
    | inner :: _ =>
      match route? (Text.lowercase (Text.ofBytes inner)) with
      | some (.broadcast _) => askOnce ⟨coordinator.self, arguments⟩
      | _ => refuse (.notForwardable (Text.lowercase (Text.ofBytes inner)))

/-- What a coordinator does for a command line. -/
def plan : CommandLine → Plan
  | [] => refuse .emptyCommand
  | name :: arguments =>
    match route? (Text.lowercase (Text.ofBytes name)) with
    | none => refuse (.notSupported (Text.lowercase (Text.ofBytes name)))
    | some route => coordinator.planBy name arguments route

/-- A member is asked to do something for a command line. -/
inductive Entrusts : CommandLine → Errand → Prop where
  /-- The node itself executes the line. -/
  | here {name : Bytes} {arguments : List Bytes}
      (route : route? (Text.lowercase (Text.ofBytes name)) = some .here) :
      Entrusts (name :: arguments) ⟨coordinator.self, name :: arguments⟩
  /-- The owner of the first key executes the line. -/
  | firstKey {name key : Bytes} {more : List Bytes}
      (route : route? (Text.lowercase (Text.ofBytes name)) = some .firstKey) :
      Entrusts (name :: key :: more) ⟨coordinator.owner key, name :: key :: more⟩
  /-- An owner of some keys executes the part of the line that concerns them. -/
  | splitKeys {name : Bytes} {keys part : List Bytes} {member : String}
      (route : route? (Text.lowercase (Text.ofBytes name)) = some .splitKeys)
      (some : part ≠ []) (sublist : part.Sublist keys)
      (owns : ∀ key ∈ part, coordinator.owner key = member) :
      Entrusts (name :: keys) ⟨member, name :: part⟩
  /-- The owner of both keys executes the line. -/
  | sameOwner {name source target : Bytes}
      (route : route? (Text.lowercase (Text.ofBytes name)) = some .sameOwner)
      (owners : coordinator.owner source = coordinator.owner target) :
      Entrusts [name, source, target] ⟨coordinator.owner source, [name, source, target]⟩
  /-- Every member executes the line, other members as it is forwarded to them. -/
  | broadcast {name : Bytes} {arguments : List Bytes} {merge : Merge} {member : String}
      (route : route? (Text.lowercase (Text.ofBytes name)) = some (.broadcast merge))
      (listed : member ∈ coordinator.members) :
      Entrusts (name :: arguments) ⟨member, coordinator.lineFor member (name :: arguments)⟩
  /-- The node itself executes a line that has been forwarded to it. -/
  | forwarded {marker name : Bytes} {arguments : List Bytes} {merge : Merge}
      (route : route? (Text.lowercase (Text.ofBytes marker)) = some .forwarded)
      (inner : route? (Text.lowercase (Text.ofBytes name)) = some (.broadcast merge)) :
      Entrusts (marker :: name :: arguments) ⟨coordinator.self, name :: arguments⟩

variable {coordinator} {errand : Errand} {line : CommandLine}

/-- The errands for a line are entrusted by the strategy of its command. -/
theorem entrusts_of_mem_errands (h : errand ∈ coordinator.errands line) :
    coordinator.Entrusts line errand := by
  -- one case for each strategy; a line that is refused comes with no errand
  cases line with
  | nil => exact absurd h List.not_mem_nil
  | cons name arguments =>
    simp only [errands] at h
    cases hroute : route? (Text.lowercase (Text.ofBytes name)) with
    | none =>
      simp only [hroute, List.not_mem_nil] at h
    | some route =>
      simp only [hroute] at h
      cases route with
      | here =>
        rw [List.mem_singleton.1 h]
        exact .here hroute
      | firstKey =>
        cases arguments with
        | nil => exact absurd h List.not_mem_nil
        | cons key more =>
          rw [List.mem_singleton.1 h]
          exact .firstKey hroute
      | splitKeys =>
        obtain ⟨group, hgroup, rfl⟩ := List.mem_map.1 h
        obtain ⟨hsub, hne, howner⟩ := (coordinator.grouped_groupKeys arguments).group group hgroup
        exact .splitKeys hroute hne hsub howner
      | sameOwner =>
        simp only [errandsBy] at h
        split at h
        · split at h
          · next howners =>
            rw [List.mem_singleton.1 h]
            exact .sameOwner hroute howners
          · exact absurd h List.not_mem_nil
        · exact absurd h List.not_mem_nil
      | broadcast merge =>
        obtain ⟨member, hmember, rfl⟩ := List.mem_map.1 h
        exact .broadcast hroute hmember
      | forwarded =>
        simp only [errandsBy] at h
        split at h
        · exact absurd h List.not_mem_nil
        · split at h
          · next hinner =>
            rw [List.mem_singleton.1 h]
            exact .forwarded hroute hinner
          · exact absurd h List.not_mem_nil

/-- A member is asked to execute something, not nothing. -/
theorem Entrusts.line_ne_nil (h : coordinator.Entrusts line errand) : errand.line ≠ [] := by
  cases h with
  | broadcast =>
    simp only [lineFor]
    split
    · exact List.cons_ne_nil _ _
    · exact List.cons_ne_nil _ _
  | _ => exact List.cons_ne_nil _ _

section Plans

variable (coordinator : Coordinator)

theorem within_askOnce (errand : Errand) (rest : List Errand) :
    (askOnce errand).Within (errand :: rest) :=
  .ask fun _ => .finish _ _

theorem within_askAll (merge : Merge) (errands : List Errand) (replies : List Value) :
    (askAll merge errands replies).Within errands := by
  induction errands generalizing replies with
  | nil => exact .finish _ _
  | cons errand rest ih => exact .ask fun reply => ih _

theorem within_askOwners (errands : List Errand) (total : Int64) :
    (askOwners total errands).Within errands := by
  induction errands generalizing total with
  | nil => exact .finish _ _
  | cons errand rest ih =>
    refine .ask fun reply => ?_
    -- only a number lets it go on, and only if the sum is a number again
    cases reply with
    | integer count =>
      dsimp only
      split
      · exact ih _
      · exact .finish _ _
    | _ => exact .finish _ _

variable {σ : Type} (surroundings : Surroundings σ)

/-- Having every member execute a line is asking all of them. -/
theorem relayAll_eq_run (merge : Merge) (line : CommandLine) (members : List String) (state : σ)
    (session : Session) (replies : List Value) :
    let relayed := coordinator.relayAll surroundings line state session members
    ⟨relayed.2.1, relayed.2.2, merge.combine (replies ++ relayed.1.map Prod.snd)⟩ =
      (askAll merge (members.map fun member => ⟨member, coordinator.lineFor member line⟩)
        replies).run coordinator surroundings state session := by
  induction members generalizing state session replies with
  | nil => simp [relayAll, askAll, Plan.run]
  | cons member rest ih =>
    rw [List.map_cons, askAll, Plan.run, ← ih]
    simp [relayAll]

/-- Adding up the numbers of owners is asking all of them that it takes. -/
theorem sumGroups_eq_run (name : Bytes) (groups : List (String × List Bytes)) (total : Int64)
    (state : σ) (session : Session) :
    coordinator.sumGroups surroundings name total state session groups =
      (askOwners total (groups.map fun group => ⟨group.1, name :: group.2⟩)).run coordinator
        surroundings state session := by
  -- the sum so far is what both carry along
  induction groups generalizing total state session with
  | nil => rfl
  | cons group rest ih =>
    simp only [sumGroups, List.map_cons, askOwners, Plan.run]
    cases (coordinator.relay surroundings group.1 state session (name :: group.2)).reply with
    | integer count =>
      dsimp only
      cases addChecked total count with
      | some sum => exact ih ..
      | none => rfl
    | _ => rfl

end Plans

variable (coordinator : Coordinator)

theorem within_planBy (name : Bytes) (arguments : List Bytes) (route : Route) :
    (coordinator.planBy name arguments route).Within
      (coordinator.errandsBy name arguments route) := by
  -- both branch on the same arguments, and a plan that refuses asks for nothing
  cases route with
  | here => exact within_askOnce _ _
  | firstKey =>
    cases arguments with
    | nil => exact .finish _ _
    | cons key more => exact within_askOnce _ _
  | splitKeys =>
    cases arguments with
    | nil => exact .finish _ _
    | cons key more => exact within_askOwners _ 0
  | sameOwner =>
    obtain _ | ⟨source, _ | ⟨target, _ | ⟨third, more⟩⟩⟩ := arguments
    · exact .finish _ _
    · exact .finish _ _
    · by_cases howners : coordinator.owner source = coordinator.owner target
      · simp only [planBy, errandsBy, if_pos howners]
        exact within_askOnce _ _
      · simp only [planBy, errandsBy, if_neg howners]
        exact .finish _ _
    · exact .finish _ _
  | broadcast merge => exact within_askAll merge _ []
  | forwarded =>
    cases arguments with
    | nil => exact .finish _ _
    | cons inner more =>
      simp only [planBy, errandsBy]
      split
      · exact within_askOnce _ _
      · exact .finish _ _

/-- A plan for a line asks for errands for that line. -/
theorem within_plan (line : CommandLine) :
    (coordinator.plan line).Within (coordinator.errands line) := by
  cases line with
  | nil => exact .finish _ _
  | cons name arguments =>
    simp only [plan, errands]
    cases route? (Text.lowercase (Text.ofBytes name)) with
    | none => exact .finish _ _
    | some route => exact coordinator.within_planBy name arguments route

section Exec

variable {σ : Type} (surroundings : Surroundings σ) (state : σ) (session : Session)

/-- To follow a strategy is to carry out its plan. -/
theorem follow_eq_run (name : Bytes) (arguments : List Bytes) (route : Route) :
    coordinator.follow surroundings state session name arguments route =
      (coordinator.planBy name arguments route).run coordinator surroundings state session := by
  cases route with
  | here => exact congrArg ofServed (coordinator.relay_self surroundings state session _).symm
  | firstKey =>
    cases arguments with
    | nil => rfl
    | cons key more => rfl
  | splitKeys =>
    cases arguments with
    | nil => rfl
    | cons key more => exact coordinator.sumGroups_eq_run surroundings name _ 0 state session
  | sameOwner =>
    obtain _ | ⟨source, _ | ⟨target, _ | ⟨third, more⟩⟩⟩ := arguments
    · rfl
    · rfl
    · by_cases howners : coordinator.owner source = coordinator.owner target
      · simp only [follow, planBy, if_pos howners]
        rfl
      · simp only [follow, planBy, if_neg howners]
        rfl
    · rfl
  | broadcast merge =>
    exact coordinator.relayAll_eq_run surroundings merge (name :: arguments) _ state session []
  | forwarded =>
    cases arguments with
    | nil => rfl
    | cons inner more =>
      simp only [follow, planBy, execForwarded]
      cases route? (Text.lowercase (Text.ofBytes inner)) with
      | none => rfl
      | some route =>
        cases route with
        | broadcast merge =>
          exact congrArg ofServed (coordinator.relay_self surroundings state session _).symm
        | _ => rfl

/-- To route a command line is to carry out its plan. -/
theorem routeLine_eq_run (line : CommandLine) :
    coordinator.routeLine surroundings state session line =
      (coordinator.plan line).run coordinator surroundings state session := by
  cases line with
  | nil => rfl
  | cons name arguments =>
    simp only [routeLine, plan]
    cases route? (Text.lowercase (Text.ofBytes name)) with
    | none => rfl
    | some route => exact coordinator.follow_eq_run surroundings state session name arguments route

end Exec

section Exec

variable {σ : Type} (coordinator : Coordinator) (surroundings : Surroundings σ)

/-- Has members do errands one after the other. -/
def carryOut : List Errand → σ → Session → σ × Session
  | [], state, session => (state, session)
  | errand :: rest, state, session =>
    let served := coordinator.relay surroundings errand.member state session errand.line
    carryOut rest served.state served.session

/-- A coordinator has its errands done in order, and stops before one of them or after the last. -/
theorem exec_eq_carryOut (state : σ) (session : Session) (line : CommandLine) :
    ∃ done, done <+: coordinator.errands line ∧
      ((coordinator.exec surroundings state session line).state,
        (coordinator.exec surroundings state session line).session) =
          coordinator.carryOut surroundings done state session := by
  have hwithin := coordinator.within_plan line
  simp only [exec, routeLine_eq_run]
  generalize coordinator.plan line = plan at hwithin ⊢
  -- the induction is on what may still be asked, whatever the errands before have led to
  generalize coordinator.errands line = errands at hwithin
  induction hwithin generalizing state session with
  | finish outcome errands => exact ⟨[], List.nil_prefix, rfl⟩
  | @ask errand next rest more ih =>
    let served := coordinator.relay surroundings errand.member state session errand.line
    obtain ⟨done, hdone, heq⟩ := ih served.reply served.state served.session
    exact ⟨errand :: done, (List.prefix_cons_inj errand).2 hdone, heq⟩

variable {coordinator surroundings} {line : CommandLine}

/-- Surroundings in which every errand goes alike cannot be told apart, and what every errand keeps
is kept. -/
theorem exec_congr {other : Surroundings σ} {P : σ → Prop}
    (h : ∀ errand ∈ coordinator.errands line, ∀ state session, P state →
      let served := coordinator.relay surroundings errand.member state session errand.line
      served = coordinator.relay other errand.member state session errand.line ∧ P served.state)
    {state : σ} (hstate : P state) (session : Session) :
    let served := coordinator.exec surroundings state session line
    served = coordinator.exec other state session line ∧ P served.state := by
  have hwithin := coordinator.within_plan line
  simp only [exec, routeLine_eq_run]
  generalize coordinator.plan line = plan at hwithin ⊢
  -- what holds of all errands is weakened to those that are left
  generalize coordinator.errands line = errands at h hwithin
  induction hwithin generalizing state session with
  | finish outcome errands => exact ⟨rfl, hstate⟩
  | @ask errand next rest more ih =>
    obtain ⟨hsame, hserved⟩ := h errand List.mem_cons_self state session hstate
    -- one reply, so the plan goes on alike on either side
    simp only [Plan.run]
    rw [← hsame]
    exact ih _ hserved _ fun later hlater => h later (List.mem_cons_of_mem _ hlater)

/-- A line that the node executes itself needs no other member. -/
theorem exec_of_errands_self
    (h : ∀ errand ∈ coordinator.errands line, errand.member = coordinator.self)
    {other : Surroundings σ} (hhere : surroundings.here = other.here) (state : σ)
    (session : Session) :
    coordinator.exec surroundings state session line =
      coordinator.exec other state session line := by
  refine (exec_congr (P := fun _ => True) (fun errand herrand state session _ => ?_) trivial
    session).1
  rw [h errand herrand, relay_self, relay_self, hhere]
  exact ⟨rfl, trivial⟩

end Exec

section Members

variable {coordinator : Coordinator}

/-- Adding a key adds its owner unless the owner has a key already. -/
theorem map_fst_addKey (owner : String) (key : Bytes) (groups : List (String × List Bytes)) :
    (addKey owner key groups).map Prod.fst =
      if owner ∈ groups.map Prod.fst then groups.map Prod.fst
      else groups.map Prod.fst ++ [owner] := by
  induction groups with
  | nil => rfl
  | cons first rest ih =>
    unfold addKey
    by_cases heq : first.1 = owner
    · simp [heq]
    · rw [if_neg heq, List.map_cons, ih]
      by_cases hmem : owner ∈ rest.map Prod.fst
      · simp [hmem]
      · simp [hmem, Ne.symm heq]

/-- Each owner has one group. -/
theorem nodup_groupKeys (coordinator : Coordinator) (keys : List Bytes) :
    ((coordinator.groupKeys keys).map Prod.fst).Nodup := by
  -- the groups so far have different owners, and a key makes a new group only for a new owner
  have hfold : ∀ (keys : List Bytes) (groups : List (String × List Bytes)),
      (groups.map Prod.fst).Nodup →
        ((keys.foldl (fun groups key => addKey (coordinator.owner key) key groups) groups).map
          Prod.fst).Nodup := by
    intro keys
    induction keys with
    | nil => exact fun _ h => h
    | cons key rest ih =>
      intro groups h
      refine ih _ ?_
      rw [map_fst_addKey]
      split
      · exact h
      · next hnew => exact h.append (List.nodup_singleton _) (List.disjoint_singleton.2 hnew)
  exact hfold keys [] List.nodup_nil

/-- No member is asked twice for one line. -/
theorem nodup_errands (hnodup : coordinator.members.Nodup) (line : CommandLine) :
    ((coordinator.errands line).map Errand.member).Nodup := by
  -- only two strategies ask several members: each owner of keys, or each member
  cases line with
  | nil => exact List.nodup_nil
  | cons name arguments =>
    simp only [errands]
    split
    · exact List.nodup_nil
    · next route _ =>
      cases route with
      | here => exact List.nodup_singleton _
      | firstKey =>
        cases arguments with
        | nil => exact List.nodup_nil
        | cons key more => exact List.nodup_singleton _
      | splitKeys =>
        rw [errandsBy, List.map_map]
        exact coordinator.nodup_groupKeys arguments
      | sameOwner =>
        simp only [errandsBy]
        split
        · split
          · exact List.nodup_singleton _
          · exact List.nodup_nil
        · exact List.nodup_nil
      | broadcast merge =>
        rw [errandsBy, List.map_map]
        exact (List.map_id coordinator.members).symm ▸ hnodup
      | forwarded =>
        simp only [errandsBy]
        split
        · exact List.nodup_nil
        · split
          · exact List.nodup_singleton _
          · exact List.nodup_nil

variable {errand : Errand} {line : CommandLine}

/-- A line that has been forwarded is for the node itself. -/
theorem eq_self_of_forwarded {marker : Bytes} {arguments : List Bytes}
    (hmarker : Text.lowercase (Text.ofBytes marker) = forwardedName)
    (h : errand ∈ coordinator.errands (marker :: arguments)) :
    errand.member = coordinator.self := by
  have hroute : route? (Text.lowercase (Text.ofBytes marker)) = some .forwarded := by
    rw [hmarker]
    decide +kernel
  simp only [errands, hroute, errandsBy] at h
  split at h
  · exact absurd h List.not_mem_nil
  · split at h
    · rw [List.mem_singleton.1 h]
    · exact absurd h List.not_mem_nil

/-- What a coordinator asks of another member, that member does itself, if it knows the same owners:
it executes the line as it gets it, or what has been forwarded to it. A line of which others could
have had a part is to be answered by a number or an error. -/
theorem exec_of_asked (h : errand ∈ coordinator.errands line)
    (hother : errand.member ≠ coordinator.self) {asked : Coordinator}
    (hself : asked.self = errand.member) (howner : ∀ key, asked.owner key = coordinator.owner key) :
    ∃ inner, (errand.line = inner ∨ inner = line ∧ errand.line = forward line) ∧
      ∀ {σ : Type} (surroundings : Surroundings σ) (state : σ) (session : Session),
        (∀ name keys, route? (Text.lowercase (Text.ofBytes name)) = some .splitKeys →
          (surroundings.here state session (name :: keys)).reply.IsTally) →
        asked.exec surroundings state session errand.line =
          surroundings.here state session inner := by
  cases entrusts_of_mem_errands h with
  | here => exact absurd rfl hother
  | forwarded => exact absurd rfl hother
  | @firstKey name key more hroute =>
    have hasked : asked.owner key = asked.self := (howner key).trans hself.symm
    refine ⟨_, .inl rfl, fun surroundings state session _ => ?_⟩
    rw [exec_firstKey _ _ _ _ hroute, hasked, relay_self]
  | @splitKeys name keys part member hroute hne hsub howns =>
    refine ⟨_, .inl rfl, fun surroundings state session htally => ?_⟩
    exact asked.exec_splitKeys_self surroundings state session hroute hne
      (fun key hkey => (howner key).trans ((howns key hkey).trans hself.symm))
      (htally name part hroute)
  | @sameOwner name source target hroute howners =>
    have hasked : asked.owner source = asked.self := (howner source).trans hself.symm
    have hboth : asked.owner source = asked.owner target := by rw [howner, howner, howners]
    refine ⟨_, .inl rfl, fun surroundings state session _ => ?_⟩
    rw [exec_sameOwner _ _ _ _ hroute hboth, hasked, relay_self]
  | @broadcast name arguments merge member hroute hmember =>
    -- the one line that is not passed on as it is
    have hline : coordinator.lineFor member (name :: arguments) = forward (name :: arguments) :=
      if_neg hother
    refine ⟨name :: arguments, .inr ⟨rfl, hline⟩, fun surroundings state session _ => ?_⟩
    simp only [hline]
    exact asked.exec_forward surroundings state session hroute arguments

end Members

end Coordinator

end RingStore

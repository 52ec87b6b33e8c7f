import RingStore.Proofs.Cluster.FaultyPeer

/-!
# Replies of a faulty peer

Every relay gets the reply to its own command line or none, however connections fail and whichever
relays are under way at the same time.

The invariant is that a connection that somebody may go on using has nothing in flight: all its
requests were answered, and all answers were read to their last byte. So the next reply on it
belongs to the next request. A connection is in the hands of one relay, at rest, or destroyed, so
that nobody asks anything between the two requests of a relay; and the relay whose request has
failed still has the connection in its hands or has had it destroyed.

## Main definitions

* `Ready`: a connection on which the next reply belongs to the next request.
* `Told`: what a relay has learnt is what it has asked and been answered.
* `Sound`: the invariant.

## Main results

* `Sound.atPool`, `Sound.ask`: a step at the pool, and a request.
* `Sound.run`: every step keeps the invariant.
* `relay_matches`: how relays end, and what becomes of connections.
-/

namespace RingStore.FaultyPeer

/-! ### What was asked -/

section

variable {exchanges : List Exchange} {exchange : Exchange}

/-- Everything that a relay has asked. -/
def askedBy (exchanges : List Exchange) (who : Nat) : List Exchange :=
  exchanges.filter fun exchange => exchange.relay = who

/-- Everything that was asked on a connection. -/
def askedOn (exchanges : List Exchange) (number : Nat) : List Exchange :=
  exchanges.filter fun exchange => exchange.channel = number

/-- The next reply on a connection belongs to the next request. -/
structure Ready (exchanges : List Exchange) (channel : Channel) : Prop where
  /-- Nothing is left of earlier replies. -/
  clean : channel.Clean
  /-- All requests so far were answered. -/
  answered : ∀ exchange ∈ exchanges, exchange.channel = channel.number → exchange.Answered

theorem askedBy_append_self (exchanges : List Exchange) (exchange : Exchange) :
    askedBy (exchanges ++ [exchange]) exchange.relay =
      askedBy exchanges exchange.relay ++ [exchange] := by
  simp [askedBy]

theorem askedOn_append_self (exchanges : List Exchange) (exchange : Exchange) :
    askedOn (exchanges ++ [exchange]) exchange.channel =
      askedOn exchanges exchange.channel ++ [exchange] := by
  simp [askedOn]

theorem askedBy_append_of_ne {who : Nat} (h : exchange.relay ≠ who) :
    askedBy (exchanges ++ [exchange]) who = askedBy exchanges who := by
  simp [askedBy, h]

theorem askedOn_append_of_ne {number : Nat} (h : exchange.channel ≠ number) :
    askedOn (exchanges ++ [exchange]) number = askedOn exchanges number := by
  simp [askedOn, h]

theorem askedOn_prefix_append (exchanges : List Exchange) (exchange : Exchange) (number : Nat) :
    askedOn exchanges number <+: askedOn (exchanges ++ [exchange]) number := by
  simp [askedOn]

/-- Requests of a relay that were the last ones on a connection are followed there by its next one,
with no request of others in between. -/
theorem askedBy_append_suffix (exchange : Exchange)
    (h : askedBy exchanges exchange.relay <:+ askedOn exchanges exchange.channel) :
    askedBy (exchanges ++ [exchange]) exchange.relay <:+
      askedOn (exchanges ++ [exchange]) exchange.channel := by
  rw [askedBy_append_self, askedOn_append_self]
  exact (List.suffix_append_inj_of_length_eq rfl).2 ⟨h, rfl⟩

theorem askedBy_infix_of_suffix {who number : Nat}
    (h : askedBy exchanges who <:+ askedOn exchanges number) :
    ∀ exchange ∈ askedBy exchanges who,
      askedBy exchanges who <:+: askedOn exchanges exchange.channel := by
  intro exchange hexchange
  obtain rfl : exchange.channel = number := by
    simpa using (List.mem_filter.1 (h.subset hexchange)).2
  exact h.isInfix

/-- A request on another connection makes no difference. -/
theorem Ready.append_of_ne {channel : Channel} (h : Ready exchanges channel)
    (hne : exchange.channel ≠ channel.number) : Ready (exchanges ++ [exchange]) channel := by
  refine ⟨h.clean, fun other hother heq => ?_⟩
  rcases List.mem_append.1 hother with hold | hnew
  · exact h.answered other hold heq
  · exact absurd (List.mem_singleton.1 hnew ▸ heq) hne

/-- A request that was answered to the last byte leaves a connection as it was. -/
theorem Ready.append_answered {channel after : Channel} (h : Ready exchanges channel)
    (hnumber : after.number = channel.number) (hclean : after.Clean)
    (hanswered : exchange.Answered) : Ready (exchanges ++ [exchange]) after := by
  refine ⟨hclean, fun other hother heq => ?_⟩
  rcases List.mem_append.1 hother with hold | hnew
  · exact h.answered other hold (heq.trans hnumber)
  · exact List.mem_singleton.1 hnew ▸ hanswered

end

/-- The numbers of the connections in the hands of a relay. -/
def numbers (relaying : Relaying Channel) : List Nat :=
  relaying.stage.connections.map Channel.number

/-- How far a relay has got at the pool, and what it can have learnt by then. -/
def Coherent : Pool.Stage Channel → Talk → Prop
  | .waiting, talk | .searching, talk | .checking _, talk | .opening, talk | .refused _, talk =>
    talk = .unasked
  | .holding _, _ => True
  | .returning _, talk => ∃ reply, talk = .ended reply true
  | .leaving, talk | .gone, talk => ∃ reply whole, talk = .ended reply whole

/-- What a relay has learnt is what it has asked and been answered. What it has asked it has asked
on one connection, with no request of others in between. -/
def Told (peer : String) (exchanges : List Exchange) (who : Nat) (relaying : Relaying Channel) :
    Prop :=
  match relaying.talk with
  | .unasked => askedBy exchanges who = []
  | .selected => ∃ number selected, numbers relaying = [number] ∧ selected.isError = false ∧
      askedBy exchanges who =
        [⟨who, number, PeerAccess.selection relaying.session, selected, .ok selected⟩] ∧
      askedBy exchanges who <:+ askedOn exchanges number
  | .ended reply _ =>
    Exchanged peer who relaying.session relaying.line (askedBy exchanges who) reply ∧
      ∀ exchange ∈ askedBy exchanges who,
        askedBy exchanges who <:+: askedOn exchanges exchange.channel

/-- A request of another relay, on another connection, tells a relay nothing. -/
theorem Told.append_of_ne {peer : String} {exchanges : List Exchange} {who : Nat}
    {relaying : Relaying Channel} {exchange : Exchange} (h : Told peer exchanges who relaying)
    (hrelay : exchange.relay ≠ who) (hchannel : exchange.channel ∉ numbers relaying) :
    Told peer (exchanges ++ [exchange]) who relaying := by
  unfold Told at h ⊢
  rw [askedBy_append_of_ne hrelay]
  split at h
  · exact h
  · obtain ⟨number, selected, hnumber, hselected, hasked, hlast⟩ := h
    have hne : exchange.channel ≠ number := by simpa [hnumber] using hchannel
    refine ⟨number, selected, hnumber, hselected, hasked, ?_⟩
    rwa [askedOn_append_of_ne hne]
  · exact ⟨h.1, fun other hother => (h.2 other hother).trans
      (askedOn_prefix_append exchanges exchange other.channel).isInfix⟩

/-- Where a relay is at the pool matters to what it has learnt only between its two requests. -/
theorem Told.with_stage {peer : String} {exchanges : List Exchange} {who : Nat}
    {relaying : Relaying Channel} (h : Told peer exchanges who relaying)
    (htalk : relaying.talk ≠ .selected) (stage : Pool.Stage Channel) :
    Told peer exchanges who { relaying with stage } := by
  unfold Told at h ⊢
  split at h
  · next heq => simpa only [heq] using h
  · next heq => exact absurd heq htalk
  · next heq => simpa only [heq] using h

/-! ### The invariant -/

/-- The numbers of the connections in someone's hands. -/
def Traffic.inHand (traffic : Traffic) : List Nat :=
  traffic.relays.flatMap numbers ++
    traffic.closers.flatMap fun closing => closing.connections.map Channel.number

/-- The numbers of the connections that the pool has destroyed, as often as it has. -/
def destroyed (events : List (PoolEvent Channel)) : List Nat :=
  (PoolEvent.destroyed events).map Channel.number

/-- The invariant. -/
structure Sound (peer : String) (options : PoolOptions) (traffic : Traffic)
    (events : List (PoolEvent Channel)) : Prop where
  /-- Every permit is free or held by a relay. -/
  permits : (traffic.relays.map fun relaying => relaying.stage.permits).sum +
    traffic.world.pool.permits = Pool.capacity options
  /-- Every connection that was opened is in one place. -/
  places : ∀ number, (destroyed events).count number + traffic.inHand.count number +
    (traffic.world.pool.idle.map Channel.number).count number =
      if number < traffic.world.opened then 1 else 0
  /-- Idle connections can be used. -/
  idle : ∀ channel ∈ traffic.world.pool.idle, Ready traffic.world.exchanges channel
  /-- So can connections in the hands of relays whose requests were all answered. -/
  ready : ∀ relaying ∈ traffic.relays, relaying.talk.whole = true →
    ∀ channel ∈ relaying.stage.connections, Ready traffic.world.exchanges channel
  /-- Relays have learnt what they have asked. -/
  told : ∀ who relaying, traffic.relays[who]? = some relaying →
    Told peer traffic.world.exchanges who relaying
  /-- They let go of connections when they know their replies. -/
  coherent : ∀ relaying ∈ traffic.relays, Coherent relaying.stage relaying.talk
  /-- Requests are made by relays on connections that were opened. -/
  known : ∀ exchange ∈ traffic.world.exchanges,
    exchange.relay < traffic.relays.length ∧ exchange.channel < traffic.world.opened
  /-- A request that was not answered is the last one on its connection. -/
  retired : traffic.world.exchanges.Pairwise fun earlier later =>
    earlier.channel = later.channel → earlier.Answered
  /-- Its relay still has that connection or has had it destroyed. -/
  lost : ∀ exchange ∈ traffic.world.exchanges, ¬exchange.Answered →
    exchange.channel ∈ destroyed events ∨
      ∃ relaying, traffic.relays[exchange.relay]? = some relaying ∧
        relaying.talk.whole = false ∧ numbers relaying = [exchange.channel]

namespace Sound

variable {peer : String} {options : PoolOptions} {traffic : Traffic}
  {events : List (PoolEvent Channel)}

theorem start (peer : String) (options : PoolOptions) :
    Sound peer options (Traffic.start options) [] where
  permits := Nat.zero_add _
  places := by simp [Traffic.start, Pool.empty, destroyed, PoolEvent.destroyed, Traffic.inHand]
  idle := by simp [Traffic.start, Pool.empty]
  ready := by simp [Traffic.start]
  told := by simp [Traffic.start]
  coherent := by simp [Traffic.start]
  known := by simp [Traffic.start]
  retired := .nil
  lost := by simp [Traffic.start]

/-- Nobody else has a connection that a relay has. -/
theorem not_mem_numbers (h : Sound peer options traffic events) {who other : Nat}
    {relaying another : Relaying Channel} (hwho : traffic.relays[who]? = some relaying)
    (hother : traffic.relays[other]? = some another) (hne : who ≠ other) {number : Nat}
    (hnumber : number ∈ numbers relaying) : number ∉ numbers another := by
  intro hmem
  -- without the first of them the second one would still have it
  have hgone := (perm_flatMap_set hwho { relaying with stage := .gone } numbers).count_eq number
  have hstill : another ∈ traffic.relays.set who { relaying with stage := .gone } :=
    List.mem_of_getElem? ((List.getElem?_set_ne hne).trans hother)
  have hcount := List.count_pos_iff.2 (List.mem_flatMap.2 ⟨another, hstill, hmem⟩)
  have hfirst := List.count_pos_iff.2 hnumber
  have hplaces := h.places number
  simp only [Traffic.inHand, List.count_append] at hgone hplaces
  have hnone : (numbers { relaying with stage := .gone }).count number = 0 := rfl
  split at hplaces <;> omega

/-- A connection that a relay has is not idle. -/
theorem ne_idle (h : Sound peer options traffic events) {relaying : Relaying Channel}
    (hrelaying : relaying ∈ traffic.relays) {number : Nat} (hnumber : number ∈ numbers relaying)
    {channel : Channel} (hidle : channel ∈ traffic.world.pool.idle) : number ≠ channel.number := by
  rintro rfl
  have hhand := List.count_pos_iff.2 (List.mem_flatMap.2 ⟨relaying, hrelaying, hnumber⟩)
  have hrest := List.count_pos_iff.2 (List.mem_map_of_mem (f := Channel.number) hidle)
  have hplaces := h.places channel.number
  simp only [Traffic.inHand, List.count_append] at hplaces
  split at hplaces <;> omega

/-- A connection that a relay has was opened. -/
theorem lt_opened (h : Sound peer options traffic events) {relaying : Relaying Channel}
    (hrelaying : relaying ∈ traffic.relays) {number : Nat}
    (hnumber : number ∈ numbers relaying) : number < traffic.world.opened := by
  have hhand := List.count_pos_iff.2 (List.mem_flatMap.2 ⟨relaying, hrelaying, hnumber⟩)
  have hplaces := h.places number
  simp only [Traffic.inHand, List.count_append] at hplaces
  split at hplaces
  · assumption
  · omega

/-- What a relay may do at the pool: it keeps connections and permits, those it opens are new, it
has learnt what it has by now, and if a request of it has failed it has its connection
destroyed. -/
structure Permitted (world : World) (relaying : Relaying Channel)
    (taken : PoolStep Channel (Pool.Stage Channel)) (opened : Nat) : Prop where
  /-- Connections and permits are kept. -/
  keeps : relaying.stage.Keeps world.pool taken
  /-- New connections get the next numbers. -/
  numbers : ∀ number, ((PoolEvent.created taken.events).map Channel.number).count number +
    (if number < world.opened then 1 else 0) = if number < opened then 1 else 0
  /-- New connections can be used. -/
  ready : ∀ channel ∈ PoolEvent.created taken.events, Ready world.exchanges channel
  /-- The relay still knows what it knew. -/
  coherent : Coherent taken.result relaying.talk
  /-- It is not between its two requests. -/
  talk : relaying.talk ≠ .selected
  /-- A connection on which a request has failed is destroyed, and none is put to rest. -/
  whole : relaying.talk.whole = true ∨ taken.pool.idle = world.pool.idle ∧
    (PoolEvent.destroyed taken.events).map Channel.number = FaultyPeer.numbers relaying

section

variable {who : Nat} {relaying : Relaying Channel}
  {taken : PoolStep Channel (Pool.Stage Channel)} {opened : Nat}

/-- After a step of a relay at the pool every connection that was opened is in one place. -/
theorem places_atPool (h : Sound peer options traffic events)
    (hwho : traffic.relays[who]? = some relaying)
    (hpermitted : Permitted traffic.world relaying taken opened) (number : Nat) :
    (destroyed (events ++ taken.events)).count number +
      ((traffic.relays.set who { relaying with stage := taken.result }).flatMap
        FaultyPeer.numbers ++ traffic.closers.flatMap fun closing =>
          closing.connections.map Channel.number).count number +
      (taken.pool.idle.map Channel.number).count number = if number < opened then 1 else 0 := by
  -- one equation for the relay that moves, one for all the others, and the books before
  have hstep := (hpermitted.keeps.connections.map Channel.number).count_eq number
  have hothers := (perm_flatMap_set hwho { relaying with stage := taken.result }
    FaultyPeer.numbers).count_eq number
  have hbefore := h.places number
  have hopened := hpermitted.numbers number
  simp only [destroyed, Traffic.inHand, FaultyPeer.numbers, PoolEvent.destroyed_append,
    List.map_append, List.count_append] at hstep hothers hbefore hopened ⊢
  omega

/-- What a relay has after a step at the pool, and what is at rest then, can be used, unless a
request of that relay has failed. -/
theorem ready_atPool (h : Sound peer options traffic events) (hmem : relaying ∈ traffic.relays)
    (hpermitted : Permitted traffic.world relaying taken opened)
    (hwhole : relaying.talk.whole = true) {channel : Channel}
    (hchannel : channel ∈ taken.result.connections ∨ channel ∈ taken.pool.idle) :
    Ready traffic.world.exchanges channel := by
  -- what it has and what is at rest was opened just now, in its hands before, or at rest before
  have hsource := hpermitted.keeps.connections.symm.subset (a := channel) <| by
    simp only [List.mem_append]
    tauto
  simp only [List.mem_append, or_assoc] at hsource
  rcases hsource with hnew | hold | hrest
  · exact hpermitted.ready channel hnew
  · exact h.ready relaying hmem hwhole channel hold
  · exact h.idle channel hrest

/-- After a step of a relay at the pool the connection of a failed request is still in the hands of
its relay, or it was destroyed. -/
theorem lost_atPool (h : Sound peer options traffic events)
    (hwho : traffic.relays[who]? = some relaying)
    (hpermitted : Permitted traffic.world relaying taken opened) {exchange : Exchange}
    (hexchange : exchange ∈ traffic.world.exchanges) (hfailed : ¬exchange.Answered) :
    exchange.channel ∈ destroyed (events ++ taken.events) ∨
      ∃ other, (traffic.relays.set who { relaying with stage := taken.result })[exchange.relay]? =
          some other ∧ other.talk.whole = false ∧
          FaultyPeer.numbers other = [exchange.channel] := by
  simp only [destroyed, PoolEvent.destroyed_append, List.map_append, List.mem_append]
  rcases h.lost exchange hexchange hfailed with hgone | ⟨other, hother, hbroken, hhand⟩
  · exact .inl (.inl hgone)
  by_cases hne : who = exchange.relay
  · -- its own request has failed, so that this step is the one that destroys the connection
    rw [← hne, hwho] at hother
    obtain rfl := Option.some.inj hother
    rcases hpermitted.whole with hall | ⟨-, hgone⟩
    · rw [hbroken] at hall
      cases hall
    · exact .inl (.inr (by rw [hgone, hhand]; exact List.mem_singleton_self _))
  · exact .inr ⟨other, (List.getElem?_set_ne hne).trans hother, hbroken, hhand⟩

/-- A step of a relay at the pool keeps the invariant. -/
theorem atPool (h : Sound peer options traffic events)
    (hwho : traffic.relays[who]? = some relaying)
    (hpermitted : Permitted traffic.world relaying taken opened) :
    Sound peer options
      { traffic with
        world := ⟨taken.pool, opened, traffic.world.exchanges⟩
        relays := traffic.relays.set who { relaying with stage := taken.result } }
      (events ++ taken.events) := by
  have hmem : relaying ∈ traffic.relays := List.mem_of_getElem? hwho
  constructor
  case permits =>
    have hothers := sum_map_set hwho { relaying with stage := taken.result }
      fun relaying => relaying.stage.permits
    have hstep := hpermitted.keeps.permits
    have hbefore := h.permits
    simp only at hothers ⊢
    omega
  case places => exact h.places_atPool hwho hpermitted
  case idle =>
    intro channel hidle
    rcases hpermitted.whole with hall | ⟨hsame, -⟩
    · exact h.ready_atPool hmem hpermitted hall (.inr hidle)
    · exact h.idle channel (hsame ▸ hidle)
  case ready =>
    intro other hother hall channel hchannel
    rcases List.mem_or_eq_of_mem_set hother with hold | rfl
    · exact h.ready other hold hall channel hchannel
    · exact h.ready_atPool hmem hpermitted hall (.inl hchannel)
  case told =>
    intro other another hanother
    rcases eq_or_getElem?_of_set hanother with ⟨rfl, rfl⟩ | ⟨-, hold⟩
    · exact (h.told who relaying hwho).with_stage hpermitted.talk taken.result
    · exact h.told other another hold
  case coherent =>
    intro other hother
    rcases List.mem_or_eq_of_mem_set hother with hold | rfl
    · exact h.coherent other hold
    · exact hpermitted.coherent
  case known =>
    intro exchange hexchange
    obtain ⟨hrelay, hchannel⟩ := h.known exchange hexchange
    refine ⟨by rwa [List.length_set], ?_⟩
    -- a number that was given out stays so
    have hopened := hpermitted.numbers exchange.channel
    rw [if_pos hchannel] at hopened
    by_contra hnot
    rw [if_neg hnot] at hopened
    omega
  case retired => exact h.retired
  case lost => exact fun exchange hexchange hfailed =>
    h.lost_atPool hwho hpermitted hexchange hfailed

end

section

variable {who : Nat} {relaying : Relaying Channel} {channel : Channel}

/-- A connection in the hands of a relay whose requests were all answered can be used. -/
theorem ready_holding (h : Sound peer options traffic events)
    (hwho : traffic.relays[who]? = some relaying) (hstage : relaying.stage = .holding channel)
    (hwhole : relaying.talk.whole = true) : Ready traffic.world.exchanges channel :=
  h.ready relaying (List.mem_of_getElem? hwho) hwhole channel
    (by simp [hstage, Pool.Stage.connections])

/-- A request of a relay keeps the invariant. -/
theorem ask (h : Sound peer options traffic events)
    (hwho : traffic.relays[who]? = some relaying)
    (hstage : relaying.stage = .holding channel) (hwhole : relaying.talk.whole = true)
    {request : CommandLine} {reply : Value} {result : Except Failure Value} {after : Channel}
    {talk : Talk} (hnumber : after.number = channel.number)
    (hresult : result = .ok reply ∧ after.Clean ∨
      (∃ failure, result = .error failure) ∧ talk.whole = false)
    (htold : Told peer
      (traffic.world.exchanges ++ [⟨who, channel.number, request, reply, result⟩]) who
      { relaying with stage := .holding after, talk }) :
    Sound peer options
      { traffic with
        world := traffic.world.record ⟨who, channel.number, request, reply, result⟩
        relays := traffic.relays.set who { relaying with stage := .holding after, talk } }
      events := by
  have hmem : relaying ∈ traffic.relays := List.mem_of_getElem? hwho
  have hlength : who < traffic.relays.length := (List.getElem?_eq_some_iff.1 hwho).1
  have hhand : FaultyPeer.numbers relaying = [channel.number] := by
    simp [FaultyPeer.numbers, hstage, Pool.Stage.connections]
  have hown : channel.number ∈ FaultyPeer.numbers relaying := by simp [hhand]
  have hready := h.ready_holding hwho hstage hwhole
  have hsame : FaultyPeer.numbers { relaying with stage := .holding after, talk } =
      FaultyPeer.numbers relaying := by
    rw [hhand, ← hnumber]
    rfl
  constructor
  case permits =>
    have hothers := sum_map_set hwho { relaying with stage := .holding after, talk }
      fun relaying => relaying.stage.permits
    have hheld : (Pool.Stage.holding after).permits = relaying.stage.permits := by
      rw [hstage]
      rfl
    have hbefore := h.permits
    simp only [hheld] at hothers
    simp only [World.record]
    omega
  case places =>
    intro number
    have hothers := (perm_flatMap_set hwho { relaying with stage := .holding after, talk }
      FaultyPeer.numbers).count_eq number
    have hbefore := h.places number
    show _ = if number < traffic.world.opened then 1 else 0
    simp only [hsame, Traffic.inHand, List.count_append, World.record] at hothers hbefore ⊢
    omega
  case idle =>
    exact fun other hidle => (h.idle other hidle).append_of_ne (h.ne_idle hmem hown hidle)
  case ready =>
    intro other hother hall another hanother
    obtain ⟨position, hposition⟩ := List.mem_iff_getElem?.1 hother
    rcases eq_or_getElem?_of_set hposition with ⟨rfl, rfl⟩ | ⟨hne, hold⟩
    · -- the relay itself: its request was answered, and nothing is left
      obtain rfl : another = after := List.mem_singleton.1 hanother
      rcases hresult with ⟨rfl, hclean⟩ | ⟨-, hbroken⟩
      · exact hready.append_answered hnumber hclean rfl
      · rw [hbroken] at hall
        cases hall
    · -- another relay has another connection, on which nothing was asked
      refine (h.ready other (List.mem_of_getElem? hold) hall another hanother).append_of_ne ?_
      intro (heq : channel.number = another.number)
      refine h.not_mem_numbers hwho hold hne hown ?_
      rw [heq]
      exact List.mem_map_of_mem hanother
  case told =>
    intro other another hanother
    rcases eq_or_getElem?_of_set hanother with ⟨rfl, rfl⟩ | ⟨hne, hold⟩
    · exact htold
    · exact (h.told other another hold).append_of_ne hne (h.not_mem_numbers hwho hold hne hown)
  case coherent =>
    intro other hother
    rcases List.mem_or_eq_of_mem_set hother with hold | rfl
    · exact h.coherent other hold
    · trivial
  case known =>
    intro exchange hexchange
    rw [List.length_set]
    rcases List.mem_append.1 hexchange with hold | hnew
    · exact h.known exchange hold
    · obtain rfl := List.mem_singleton.1 hnew
      exact ⟨hlength, h.lt_opened hmem hown⟩
  case retired =>
    -- the connection was ready, so that all requests on it before this one were answered
    refine List.pairwise_append.2 ⟨h.retired, List.pairwise_singleton _ _, ?_⟩
    intro earlier hearlier later hlater heq
    obtain rfl := List.mem_singleton.1 hlater
    exact hready.answered earlier hearlier heq
  case lost =>
    intro exchange hexchange hfailed
    rcases List.mem_append.1 hexchange with hold | hnew
    · -- a relay that makes a request has none that failed
      refine (h.lost exchange hold hfailed).imp_right fun ⟨other, hother, hbroken, hnumbers⟩ => ?_
      have hne : who ≠ exchange.relay := by
        rintro rfl
        obtain rfl := Option.some.inj (hwho.symm.trans hother)
        rw [hbroken] at hwhole
        cases hwhole
      exact ⟨other, (List.getElem?_set_ne hne).trans hother, hbroken, hnumbers⟩
    · obtain rfl := List.mem_singleton.1 hnew
      rcases hresult with ⟨rfl, -⟩ | ⟨-, hbroken⟩
      · exact absurd rfl hfailed
      · exact .inr ⟨_, List.getElem?_set_self hlength, hbroken, hsame.trans hhand⟩

end

/-! ### Steps -/

/-- A step at the pool that opens nothing. -/
theorem Permitted.of_keeps {world : World} {relaying : Relaying Channel}
    {taken : PoolStep Channel (Pool.Stage Channel)}
    (hkeeps : relaying.stage.Keeps world.pool taken)
    (hcreated : PoolEvent.created taken.events = [])
    (hcoherent : Coherent taken.result relaying.talk)
    (htalk : relaying.talk ≠ .selected)
    (hwhole : relaying.talk.whole = true ∨ taken.pool.idle = world.pool.idle ∧
      (PoolEvent.destroyed taken.events).map Channel.number = FaultyPeer.numbers relaying) :
    Permitted world relaying taken world.opened where
  keeps := hkeeps
  numbers number := by rw [hcreated, List.map_nil, List.count_nil, Nat.zero_add]
  ready := by simp [hcreated]
  coherent := hcoherent
  talk := htalk
  whole := hwhole

/-- A new connection gets the next number, and nothing was asked on it. -/
theorem permitted_opening (h : Sound peer options traffic events) {relaying : Relaying Channel}
    (hstage : relaying.stage = .opening) (htalk : relaying.talk = .unasked) (weather : Weather)
    (barred : Bool) :
    let step := traffic.world.pool.proceed barred (fun _ => true)
      (World.connect weather peer) traffic.world .opening
    Permitted traffic.world relaying step.1 step.2.opened ∧
      step.2.exchanges = traffic.world.exchanges := by
  intro step
  have hkeeps : relaying.stage.Keeps traffic.world.pool step.1 := by
    rw [hstage]
    exact traffic.world.pool.proceed_keeps traffic.world .opening
  cases hblocks : weather.blocks traffic.world.exchanges with
  | some failure =>
    -- none can be opened: the relay is refused, and its permit is free again
    have hstep : step = (⟨{ traffic.world.pool with permits := traffic.world.pool.permits + 1 }, [],
        .refused (.create failure)⟩, traffic.world) := by
      simp [step, Pool.proceed, World.connect, hblocks]
    rw [hstep] at hkeeps ⊢
    exact ⟨.of_keeps hkeeps rfl htalk (by simp [htalk]) (.inl (by rw [htalk]; rfl)), rfl⟩
  | none =>
    let opened : Channel := ⟨traffic.world.opened, .ofStream peer ⟨[], .quiet, none⟩, []⟩
    have hstep : step = (⟨traffic.world.pool, [.create opened, .activate opened],
        .holding opened⟩, { traffic.world with opened := traffic.world.opened + 1 }) := by
      simp [step, Pool.proceed, World.connect, hblocks, opened]
    rw [hstep] at hkeeps ⊢
    refine ⟨⟨hkeeps, fun number => ?_, fun channel hchannel => ?_, trivial, by simp [htalk],
      .inl (by rw [htalk]; rfl)⟩, rfl⟩
    · show [traffic.world.opened].count number + _ =
        if number < traffic.world.opened + 1 then 1 else 0
      rw [List.count_singleton]
      split <;> split <;> split <;> simp_all <;> omega
    · obtain rfl : channel = opened := List.mem_singleton.1 hchannel
      refine ⟨⟨rfl, rfl, rfl⟩, fun exchange hexchange heq => ?_⟩
      -- its number was not given out before, and everything was asked on numbers given out
      exact absurd (h.known exchange hexchange).2 (heq ▸ Nat.lt_irrefl _)

/-- What a relay does at the pool while it holds no connection. -/
theorem permitted_proceed (h : Sound peer options traffic events) {relaying : Relaying Channel}
    (hmem : relaying ∈ traffic.relays) (hstage : ∀ channel, relaying.stage ≠ .holding channel)
    (weather : Weather) :
    let step := traffic.world.pool.proceed traffic.barred (fun _ => true)
      (World.connect weather peer) traffic.world relaying.stage
    Permitted traffic.world relaying step.1 step.2.opened ∧
      step.2.exchanges = traffic.world.exchanges := by
  have hcoherent := h.coherent relaying hmem
  by_cases hopening : relaying.stage = .opening
  · rw [hopening] at hcoherent
    have hopened := h.permitted_opening hopening hcoherent weather traffic.barred
    rwa [← hopening] at hopened
  intro step
  obtain ⟨hcreated, hworld⟩ := traffic.world.pool.created_proceed traffic.barred (fun _ => true)
    (World.connect weather peer) traffic.world hopening
  have hkeeps : relaying.stage.Keeps traffic.world.pool step.1 :=
    traffic.world.pool.proceed_keeps _ _
  rw [show step.2 = traffic.world from hworld]
  obtain ⟨session, line, stage, talk⟩ := relaying
  refine ⟨.of_keeps hkeeps hcreated ?_ ?_ ?_, rfl⟩
  · cases stage with
    | opening => exact absurd rfl hopening
    | holding channel => exact absurd rfl (hstage channel)
    | waiting =>
      simp only [step, Pool.proceed]
      split
      · exact hcoherent
      split <;> exact hcoherent
    | searching =>
      simp only [step, Pool.proceed]
      split <;> exact hcoherent
    | checking channel => trivial
    | returning channel =>
      obtain ⟨reply, rfl⟩ := hcoherent
      simp only [step, Pool.proceed]
      split <;> exact ⟨reply, true, rfl⟩
    | leaving | refused | gone => exact hcoherent
  · -- between its two requests a relay holds its connection
    rintro rfl
    cases stage <;> simp_all [Coherent]
  · cases stage with
    | opening => exact absurd rfl hopening
    | holding channel => exact absurd rfl (hstage channel)
    | waiting | searching | checking | refused =>
      obtain rfl : talk = .unasked := hcoherent
      exact .inl rfl
    | returning channel =>
      obtain ⟨reply, rfl⟩ := hcoherent
      exact .inl rfl
    | leaving | gone => exact .inr ⟨rfl, rfl⟩

/-- A connection on which all requests were answered is given back. -/
theorem permitted_startReturn (world : World) {relaying : Relaying Channel} {channel : Channel}
    {reply : Value} (hstage : relaying.stage = .holding channel)
    (htalk : relaying.talk = .ended reply true) :
    Permitted world relaying (world.pool.startReturn relaying.stage) world.opened := by
  refine .of_keeps (world.pool.startReturn_keeps _) (world.pool.created_startReturn _) ?_
    (by simp [htalk]) (.inl (by rw [htalk]; rfl))
  rw [hstage, htalk]
  simp only [Pool.startReturn]
  split
  · exact ⟨reply, true, rfl⟩
  · exact ⟨reply, rfl⟩

/-- One on which a request has failed is destroyed. -/
theorem permitted_startDiscard (world : World) {relaying : Relaying Channel} {channel : Channel}
    {reply : Value} (hstage : relaying.stage = .holding channel)
    (htalk : relaying.talk = .ended reply false) :
    Permitted world relaying (world.pool.startDiscard relaying.stage) world.opened := by
  refine .of_keeps (world.pool.startDiscard_keeps _) (world.pool.created_startDiscard _) ?_
    (by simp [htalk]) (.inr ?_)
  · rw [hstage, htalk]
    exact ⟨reply, false, rfl⟩
  · rw [numbers, hstage]
    exact ⟨rfl, rfl⟩

/-- The selection of a relay keeps the invariant. -/
theorem advanceSelection (h : Sound peer options traffic events) {who : Nat}
    {relaying : Relaying Channel} (hwho : traffic.relays[who]? = some relaying)
    {channel : Channel} (hstage : relaying.stage = .holding channel)
    (htalk : relaying.talk = .unasked) (weather : Weather) :
    let taken := (World.access weather peer who).advanceSelection traffic.world relaying channel
    Sound peer options
      { traffic with world := taken.state, relays := traffic.relays.set who taken.relaying }
      (events ++ taken.events) := by
  intro taken
  have hwhole : relaying.talk.whole = true := by rw [htalk]; rfl
  have hclean := (h.ready_holding hwho hstage hwhole).clean
  obtain ⟨reply, result, after, hask, hnumber, hresult⟩ :=
    World.ask_of_clean weather who traffic.world hclean (PeerAccess.selection relaying.session)
  have hnone : askedBy traffic.world.exchanges who = [] := by
    simpa only [Told, htalk] using h.told who relaying hwho
  let exchange : Exchange :=
    ⟨who, channel.number, PeerAccess.selection relaying.session, reply, result⟩
  have hasked : askedBy (traffic.world.exchanges ++ [exchange]) who = [exchange] := by
    rw [askedBy_append_self traffic.world.exchanges exchange, hnone, List.nil_append]
  have hlast : askedBy (traffic.world.exchanges ++ [exchange]) who <:+
      askedOn (traffic.world.exchanges ++ [exchange]) channel.number :=
    askedBy_append_suffix exchange (hnone ▸ List.nil_suffix)
  rcases hresult with ⟨rfl, hafter⟩ | ⟨failure, rfl⟩
  · have htaken : taken = ⟨{ relaying with
        stage := .holding after
        talk := if reply.isError then .ended reply true else .selected }, [],
        traffic.world.record exchange⟩ := by
      simp only [taken, PeerAccess.advanceSelection, World.access, hask, exchange]
    rw [htaken, List.append_nil]
    refine h.ask hwho hstage hwhole hnumber (.inl ⟨rfl, hafter⟩) ?_
    -- a refused selection is the end of it; otherwise the command line is next
    cases hrefused : reply.isError with
    | true =>
      refine ⟨?_, askedBy_infix_of_suffix hlast⟩
      rw [hasked]
      exact .refused channel.number reply hrefused
    | false =>
      exact ⟨channel.number, reply, congrArg (fun number => [number]) hnumber, hrefused, hasked,
        hlast⟩
  · have htaken : taken = ⟨{ relaying with
        stage := .holding after
        talk := .ended (Refusal.peerFailed peer failure.message).reply false }, [],
        traffic.world.record exchange⟩ := by
      simp only [taken, PeerAccess.advanceSelection, World.access, hask, exchange,
        PeerAccess.failed]
    rw [htaken, List.append_nil]
    refine h.ask hwho hstage hwhole hnumber (.inr ⟨⟨failure, rfl⟩, rfl⟩) ?_
    refine ⟨?_, askedBy_infix_of_suffix hlast⟩
    rw [hasked]
    exact .unselected channel.number reply failure

/-- The command line of a relay, sent after the selection, keeps the invariant. -/
theorem advanceLine (h : Sound peer options traffic events) {who : Nat}
    {relaying : Relaying Channel} (hwho : traffic.relays[who]? = some relaying)
    {channel : Channel} (hstage : relaying.stage = .holding channel)
    (htalk : relaying.talk = .selected) (weather : Weather) :
    let taken := (World.access weather peer who).advanceLine traffic.world relaying channel
    Sound peer options
      { traffic with world := taken.state, relays := traffic.relays.set who taken.relaying }
      (events ++ taken.events) := by
  intro taken
  have hwhole : relaying.talk.whole = true := by rw [htalk]; rfl
  have hclean := (h.ready_holding hwho hstage hwhole).clean
  obtain ⟨reply, result, after, hask, hnumber, hresult⟩ :=
    World.ask_of_clean weather who traffic.world hclean relaying.line
  -- so far the relay has asked for its selection, as the last one on its connection
  have htold := h.told who relaying hwho
  unfold Told at htold
  simp only [htalk] at htold
  obtain ⟨number, selected, hnumbers, hselected, hbefore, hsuffix⟩ := htold
  obtain rfl : channel.number = number := by
    simpa [numbers, hstage, Pool.Stage.connections] using hnumbers
  let exchange : Exchange := ⟨who, channel.number, relaying.line, reply, result⟩
  have hasked : askedBy (traffic.world.exchanges ++ [exchange]) who =
      [⟨who, channel.number, PeerAccess.selection relaying.session, selected, .ok selected⟩,
        exchange] := by
    rw [askedBy_append_self traffic.world.exchanges exchange, hbefore]
    rfl
  have hlast := askedBy_infix_of_suffix (askedBy_append_suffix exchange hsuffix)
  rcases hresult with ⟨rfl, hafter⟩ | ⟨failure, rfl⟩
  · have htaken : taken = ⟨{ relaying with
        stage := .holding after, talk := .ended reply true }, [],
        traffic.world.record exchange⟩ := by
      simp only [taken, PeerAccess.advanceLine, World.access, hask, exchange]
    rw [htaken, List.append_nil]
    refine h.ask hwho hstage hwhole hnumber (.inl ⟨rfl, hafter⟩) ⟨?_, hlast⟩
    rw [hasked]
    exact .answered channel.number selected reply hselected
  · have htaken : taken = ⟨{ relaying with
        stage := .holding after
        talk := .ended (Refusal.peerFailed peer failure.message).reply false }, [],
        traffic.world.record exchange⟩ := by
      simp only [taken, PeerAccess.advanceLine, World.access, hask, exchange, PeerAccess.failed]
    rw [htaken, List.append_nil]
    refine h.ask hwho hstage hwhole hnumber (.inr ⟨⟨failure, rfl⟩, rfl⟩) ⟨?_, hlast⟩
    rw [hasked]
    exact .unanswered channel.number selected reply hselected failure

/-- The next step of a relay keeps the invariant. -/
theorem advance (h : Sound peer options traffic events) {who : Nat}
    {relaying : Relaying Channel} (hwho : traffic.relays[who]? = some relaying)
    (weather : Weather) :
    let taken := (World.access weather peer who).advance traffic.barred traffic.world relaying
    Sound peer options
      { traffic with world := taken.state, relays := traffic.relays.set who taken.relaying }
      (events ++ taken.events) := by
  have hmem : relaying ∈ traffic.relays := List.mem_of_getElem? hwho
  -- only with a connection in hand a relay asks, or lets go; all other steps are those of the pool
  by_cases hholding : ∃ channel, relaying.stage = .holding channel
  · obtain ⟨channel, hstage⟩ := hholding
    unfold PeerAccess.advance
    cases htalk : relaying.talk with
    | unasked =>
      simp only [hstage]
      exact h.advanceSelection hwho hstage htalk weather
    | selected =>
      simp only [hstage]
      exact h.advanceLine hwho hstage htalk weather
    | ended reply whole =>
      cases whole with
      | true =>
        simp only [hstage]
        exact h.atPool hwho (permitted_startReturn traffic.world hstage htalk)
      | false =>
        simp only [hstage]
        exact h.atPool hwho (permitted_startDiscard traffic.world hstage htalk)
  · have hstage : ∀ channel, relaying.stage ≠ .holding channel := fun channel heq =>
      hholding ⟨channel, heq⟩
    obtain ⟨hpermitted, hexchanges⟩ := h.permitted_proceed hmem hstage weather
    have hafter := h.atPool hwho hpermitted
    rw [← hexchanges] at hafter
    rw [PeerAccess.advance_of_not_holding _ _ _ hstage]
    exact hafter

/-- Closing the pool keeps the invariant: what it takes out of the pool it destroys. -/
theorem proceedClosing (h : Sound peer options traffic events) {who : Nat}
    {stage : Pool.Closing Channel} (hwho : traffic.closers[who]? = some stage) :
    let (taken, barred) := traffic.world.pool.proceedClosing traffic.barred stage
    Sound peer options
      { traffic with
        world := { traffic.world with pool := taken.pool }, barred
        closers := traffic.closers.set who taken.result }
      (events ++ taken.events) := by
  obtain ⟨-, hconnections⟩ := traffic.world.pool.proceedClosing_keeps traffic.barred stage
  obtain ⟨hpermits, hidle⟩ := traffic.world.pool.permits_proceedClosing traffic.barred stage
  generalize traffic.world.pool.proceedClosing traffic.barred stage = step at *
  obtain ⟨taken, barred⟩ := step
  constructor
  case permits => exact hpermits ▸ h.permits
  case places =>
    intro number
    have hstep := (hconnections.map Channel.number).count_eq number
    have hothers := (perm_flatMap_set hwho taken.result fun closing =>
      closing.connections.map Channel.number).count_eq number
    have hbefore := h.places number
    simp only [destroyed, Traffic.inHand, PoolEvent.destroyed_append,
      List.map_append, List.count_append] at hstep hothers hbefore ⊢
    omega
  case idle => exact fun channel hchannel => h.idle channel (hidle hchannel)
  case ready => exact h.ready
  case told => exact h.told
  case coherent => exact h.coherent
  case known => exact h.known
  case retired => exact h.retired
  case lost =>
    intro exchange hexchange hfailed
    refine (h.lost exchange hexchange hfailed).imp_left fun hgone => ?_
    rw [destroyed, PoolEvent.destroyed_append, List.map_append]
    exact List.mem_append_left _ hgone

/-- A relay that has just begun has asked nothing. -/
theorem begin (h : Sound peer options traffic events) (session : Session) (line : CommandLine) :
    Sound peer options
      { traffic with relays := traffic.relays ++ [PeerAccess.begin session line] } events where
  permits := by
    simpa [PeerAccess.begin, Pool.Stage.permits] using h.permits
  places := by
    simpa [Traffic.inHand, numbers, PeerAccess.begin, Pool.Stage.connections] using h.places
  idle := h.idle
  ready relaying hrelaying hwhole channel hchannel := by
    rcases List.mem_append.1 hrelaying with hold | hnew
    · exact h.ready relaying hold hwhole channel hchannel
    · obtain rfl := List.mem_singleton.1 hnew
      cases hchannel
  told who relaying hwho := by
    by_cases hlt : who < traffic.relays.length
    · exact h.told who relaying ((List.getElem?_append_left hlt).symm.trans hwho)
    · rw [List.getElem?_append_right (Nat.le_of_not_lt hlt)] at hwho
      obtain rfl := List.mem_singleton.1 (List.mem_of_getElem? hwho)
      -- everything so far was asked by those that began earlier
      refine List.filter_eq_nil_iff.2 fun exchange hexchange => ?_
      have hrelay := (h.known exchange hexchange).1
      simp only [decide_eq_true_eq]
      omega
  coherent relaying hrelaying := by
    rcases List.mem_append.1 hrelaying with hold | hnew
    · exact h.coherent relaying hold
    · obtain rfl := List.mem_singleton.1 hnew
      rfl
  known exchange hexchange := by
    obtain ⟨hrelay, hchannel⟩ := h.known exchange hexchange
    exact ⟨by rw [List.length_append]; omega, hchannel⟩
  retired := h.retired
  lost exchange hexchange hfailed := by
    refine (h.lost exchange hexchange hfailed).imp_right fun hheld => ?_
    obtain ⟨relaying, hrelaying, hrest⟩ := hheld
    have hlt := (List.getElem?_eq_some_iff.1 hrelaying).1
    exact ⟨relaying, (List.getElem?_append_left hlt).trans hrelaying, hrest⟩

/-- Someone comes who closes the pool. -/
theorem close (h : Sound peer options traffic events) :
    Sound peer options { traffic with closers := traffic.closers ++ [.asked] } events where
  permits := h.permits
  places := by simpa [Traffic.inHand, Pool.Closing.connections] using h.places
  idle := h.idle
  ready := h.ready
  told := h.told
  coherent := h.coherent
  known := h.known
  retired := h.retired
  lost := h.lost

/-- Whatever happens keeps the invariant. -/
theorem run (h : Sound peer options traffic events) (step : Traffic.Step) :
    Sound peer options (traffic.run peer step).1 (events ++ (traffic.run peer step).2) := by
  cases step with
  | relay session line =>
    simp only [Traffic.run, List.append_nil]
    exact h.begin session line
  | proceed who weather =>
    simp only [Traffic.run]
    split
    · rwa [List.append_nil]
    · next relaying hwho => exact h.advance hwho weather
  | close =>
    simp only [Traffic.run, List.append_nil]
    exact h.close
  | proceedClosing who =>
    simp only [Traffic.run]
    split
    · rwa [List.append_nil]
    · next stage hwho => exact h.proceedClosing hwho

theorem runAll (h : Sound peer options traffic events) (steps : List Traffic.Step) :
    Sound peer options (traffic.runAll peer steps).1
      (events ++ (traffic.runAll peer steps).2) := by
  induction steps generalizing traffic events with
  | nil =>
    rw [Traffic.runAll, List.append_nil]
    exact h
  | cons step rest ih =>
    have hnext := ih (h.run step)
    rwa [List.append_assoc] at hnext

/-! ### What relays get -/

/-- A relay on whose connection a request has failed still holds that connection, and its next step
has it destroyed. -/
theorem run_of_not_whole (h : Sound peer options traffic events) {who : Nat}
    {relaying : Relaying Channel} (hwho : traffic.relays[who]? = some relaying)
    (hbroken : relaying.talk.whole = false) {number : Nat}
    (hnumbers : numbers relaying = [number]) :
    ∃ channel : Channel, channel.number = number ∧ relaying.stage = .holding channel ∧
      ∀ weather, (traffic.run peer (.proceed who weather)).2 = [.destroy channel] := by
  have hcoherent := h.coherent relaying (List.mem_of_getElem? hwho)
  simp only [Traffic.run, hwho]
  obtain ⟨session, line, stage, talk⟩ := relaying
  obtain ⟨reply, rfl⟩ : ∃ reply, talk = .ended reply false := by
    cases talk with
    | ended reply whole => exact ⟨reply, congrArg _ hbroken⟩
    | _ => cases hbroken
  cases stage with
  | holding channel => exact ⟨channel, List.singleton_inj.1 hnumbers, rfl, fun _ => rfl⟩
  | checking channel => cases hcoherent
  | returning channel =>
    obtain ⟨other, hother⟩ := hcoherent
    cases hother
  | _ => cases hnumbers

/-- A relay that is done has got the peer's reply, or an error, and has no connection. -/
theorem exchanged (h : Sound peer options traffic events) {who : Nat} {relaying : Relaying Channel}
    (hwho : traffic.relays[who]? = some relaying) {weather : Weather} {reply : Value}
    (hreply : (World.access weather peer who).reply? relaying = some reply) :
    Exchanged peer who relaying.session relaying.line (askedBy traffic.world.exchanges who) reply ∧
      (∀ exchange ∈ askedBy traffic.world.exchanges who,
        askedBy traffic.world.exchanges who <:+:
          askedOn traffic.world.exchanges exchange.channel) ∧
      numbers relaying = [] := by
  have hcoherent := h.coherent relaying (List.mem_of_getElem? hwho)
  have htold := h.told who relaying hwho
  obtain ⟨session, line, stage, talk⟩ := relaying
  cases stage with
  | refused error =>
    -- it got no connection, so that it has asked nothing
    obtain rfl : talk = .unasked := hcoherent
    obtain rfl := Option.some.inj hreply
    have hnone : askedBy traffic.world.exchanges who = [] := htold
    rw [hnone]
    exact ⟨.unreached error, nofun, rfl⟩
  | gone =>
    obtain ⟨known, whole, rfl⟩ := hcoherent
    obtain rfl := Option.some.inj hreply
    exact ⟨htold.1, htold.2, rfl⟩
  | _ => cases hreply

/-- A relay that is not done gets closer to its end with its next step, or it waits for a permit,
and another relay has one. -/
theorem rank_run (h : Sound peer options traffic events) {who : Nat} {relaying : Relaying Channel}
    (hwho : traffic.relays[who]? = some relaying) (weather : Weather)
    (hreply : (World.access weather peer who).reply? relaying = none) :
    (∃ after, (traffic.run peer (.proceed who weather)).1.relays[who]? = some after ∧
        after.rank < relaying.rank) ∨
      relaying.stage = .waiting ∧ ∃ another ∈ traffic.relays, another.stage.permits = 1 := by
  have hmem : relaying ∈ traffic.relays := List.mem_of_getElem? hwho
  have hlength : who < traffic.relays.length := (List.getElem?_eq_some_iff.1 hwho).1
  rcases (World.access weather peer who).rank_advance traffic.barred
    (show (World.access weather peer who).pool? traffic.world = some traffic.world.pool from rfl)
    relaying with hless | hzero | ⟨hwaiting, -, hpermits⟩
  · refine .inl ⟨_, ?_, hless⟩
    simp only [Traffic.run, hwho]
    exact List.getElem?_set_self hlength
  · -- a relay without steps before it has got its reply
    have hcoherent := h.coherent relaying hmem
    obtain ⟨session, line, stage, talk⟩ := relaying
    cases stage with
    | refused error => cases hreply
    | gone =>
      obtain ⟨reply, whole, rfl⟩ := hcoherent
      cases hreply
    | holding channel =>
      have hpositive : 0 < 3 + talk.left := by omega
      exact absurd hzero hpositive.ne'
    | _ => cases hzero
  · -- all permits are taken, and there is at least one
    refine .inr ⟨hwaiting, ?_⟩
    by_contra hnone
    have hsum : (traffic.relays.map fun relaying => relaying.stage.permits).sum = 0 := by
      refine List.sum_eq_zero fun permits hmem' => ?_
      obtain ⟨another, hanother, rfl⟩ := List.mem_map.1 hmem'
      have hle := another.stage.permits_le_one
      by_contra hpositive
      exact hnone ⟨another, hanother, by omega⟩
    have hcapacity := h.permits
    rw [hsum, hpermits] at hcapacity
    have hpositive : 0 < Pool.capacity options :=
      Nat.lt_of_lt_of_le Nat.one_pos (Nat.le_max_right _ _)
    omega

end Sound

/-- A connection that was destroyed once, and that nobody has any more. -/
structure Traffic.Destroyed (traffic : Traffic) (events : List (PoolEvent Channel)) (number : Nat) :
    Prop where
  /-- It was destroyed once. -/
  once : (destroyed events).count number = 1
  /-- It is in nobody's hands. -/
  inHand : number ∉ traffic.inHand
  /-- It is not idle. -/
  idle : number ∉ traffic.world.pool.idle.map Channel.number

theorem Sound.destroyed {peer : String} {options : PoolOptions} {traffic : Traffic}
    {events : List (PoolEvent Channel)} (h : Sound peer options traffic events) {number : Nat}
    (hnumber : number ∈ FaultyPeer.destroyed events) : traffic.Destroyed events number := by
  have hcount := List.count_pos_iff.2 hnumber
  have hplaces := h.places number
  constructor
  · split at hplaces <;> omega
  · refine List.count_eq_zero.1 ?_
    split at hplaces <;> omega
  · refine List.count_eq_zero.1 ?_
    split at hplaces <;> omega

/-- Any relays of any sessions are under way at the same time over the connections of a pool, which
may be closed meanwhile; opening a connection may fail, and so may any request, when its reply has
arrived up to any byte. A relay that is done has got the peer's reply to its own command line, sent
right after the selection of its session's database; or the peer's refusal of that selection, and
then the command line was not sent; or a failure, and then the connection of the failed request has
been destroyed. Nothing else was asked on the connection between the requests of a relay. As long as
a relay is not done its next step brings it closer to that, unless it waits while another relay has
a permit. Idle connections have had all their requests answered, and nothing is left of any reply.
Nothing is asked on a connection after a failed request, and it is destroyed, if not yet then in the
next step of the relay that has it. -/
theorem relay_matches (peer : String) (options : PoolOptions) (steps : List Traffic.Step) :
    let traffic := ((Traffic.start options).runAll peer steps).1
    let events := ((Traffic.start options).runAll peer steps).2
    let exchanges := traffic.world.exchanges
    (∀ who relaying weather reply, traffic.relays[who]? = some relaying →
      (World.access weather peer who).reply? relaying = some reply →
        Exchanged peer who relaying.session relaying.line (askedBy exchanges who) reply ∧
        ∀ exchange ∈ askedBy exchanges who,
          askedBy exchanges who <:+: askedOn exchanges exchange.channel ∧
          (exchange.Answered ∨ traffic.Destroyed events exchange.channel)) ∧
    (∀ who relaying weather, traffic.relays[who]? = some relaying →
      (World.access weather peer who).reply? relaying = none →
        (∃ after, (traffic.run peer (.proceed who weather)).1.relays[who]? = some after ∧
          after.rank < relaying.rank) ∨
        relaying.stage = .waiting ∧ ∃ another ∈ traffic.relays, another.stage.permits = 1) ∧
    (∀ channel ∈ traffic.world.pool.idle, Ready exchanges channel) ∧
    (exchanges.Pairwise fun earlier later =>
      earlier.channel = later.channel → earlier.Answered) ∧
    ∀ exchange ∈ exchanges, exchange.Answered ∨
      traffic.Destroyed events exchange.channel ∨
      ∃ relaying channel, traffic.relays[exchange.relay]? = some relaying ∧
        relaying.stage = .holding channel ∧ channel.number = exchange.channel ∧
        ∀ weather, (traffic.run peer (.proceed exchange.relay weather)).2 = [.destroy channel] := by
  intro traffic events exchanges
  have h : Sound peer options traffic events := (Sound.start peer options).runAll steps
  refine ⟨fun who relaying weather reply hwho hreply => ?_,
    fun who relaying weather hwho hreply => h.rank_run hwho weather hreply, h.idle, h.retired,
    fun exchange hexchange => ?_⟩
  · obtain ⟨hexchanged, htogether, hnone⟩ := h.exchanged hwho hreply
    refine ⟨hexchanged, fun exchange hexchange => ⟨htogether exchange hexchange, ?_⟩⟩
    obtain ⟨hmem, hrelay⟩ := List.mem_filter.1 hexchange
    obtain rfl : exchange.relay = who := of_decide_eq_true hrelay
    by_cases hanswered : exchange.Answered
    · exact .inl hanswered
    rcases h.lost exchange hmem hanswered with hgone | ⟨other, hother, -, hnumbers⟩
    · exact .inr (h.destroyed hgone)
    · -- a relay that is done has nothing in its hands any more
      obtain rfl := Option.some.inj (hwho.symm.trans hother)
      rw [hnone] at hnumbers
      cases hnumbers
  · by_cases hanswered : exchange.Answered
    · exact .inl hanswered
    refine .inr ?_
    rcases h.lost exchange hexchange hanswered with hgone | ⟨relaying, hrelaying, hbroken, hnumbers⟩
    · exact .inl (h.destroyed hgone)
    · obtain ⟨channel, hnumber, hstage, hevents⟩ := h.run_of_not_whole hrelaying hbroken hnumbers
      exact .inr ⟨relaying, channel, hrelaying, hstage, hnumber, hevents⟩

end RingStore.FaultyPeer

import RingStore.Proofs.Cluster.Peering
import RingStore.Proofs.Wire.Overlong

/-!
# Asking another member, whatever happens

On a connection on which nothing is left over at the far end, the far end does one of two things
with a command line: it does not execute it, whatever it would do with it, or it executes it once.
Either way nothing is left over afterwards. Nothing is asked of the near end: the reply may be
malformed, or late, or not come at all.

## Main definitions

* `Link.Idle`: a connection with nothing left over at the far end.

## Main results

* `Network.farEndReceives_cases`, `Network.ask_cases`: a command line is not executed, or once.
* `Pool.borrow_all`: what a pool hands out it has kept, or it is new.
-/

namespace RingStore

/-- A connection to a member at whose end nothing is left over. -/
def Link.Idle (link : Link) : Prop :=
  ∃ session, link.far = .member [] session

namespace Network

variable {network : Network} {link : Link} {line : CommandLine}

@[simp]
theorem host_deliver (link : Link) (bytes : Bytes) : (deliver link bytes).host = link.host := by
  unfold deliver
  split <;> rfl

@[simp]
theorem far_deliver (link : Link) (bytes : Bytes) : (deliver link bytes).far = link.far := by
  unfold deliver
  split <;> rfl

/-- A member that takes in the bytes of a command line executes nothing, whatever it would do with
the line, or it executes the line once. -/
theorem memberReceives_cases (network : Network) {session : Session}
    (hfar : link.far = .member [] session) (hne : line ≠ []) :
    (∃ after : Link, after.host = link.host ∧ after.Idle ∧ ∀ service,
      memberReceives service network link [] session (encodeCommandLine line) = (after, network)) ∨
    ∀ service, memberReceives service network link [] session (encodeCommandLine line) =
      let served := service network session line
      (deliver { link with far := .member [] served.session } served.reply.encode,
        served.state) := by
  by_cases hlong : Connection.usualQueryBuffer < (encodeCommandLine line).length
  · -- the connection is closed, and the far end stays as it was
    refine .inl ⟨closeFarEnd (deliver link Refusal.queryTooLong.reply.encode), host_deliver .., ?_,
      fun service => ?_⟩
    · exact ⟨session, (far_deliver ..).trans hfar⟩
    · simp only [memberReceives, Connection.receive, List.nil_append, if_pos hlong, Connection.send,
        Connection.tell, Connection.withBuffer]
  · by_cases hframed : line.Framed
    · exact .inr fun service =>
        memberReceives_of_sendable service network link session ⟨hne, hframed, Nat.not_lt.1 hlong⟩
    · -- the bytes are refused and dropped
      obtain ⟨reason, hread⟩ := Wire.read_encodeCommandLine_of_not_framed hframed []
      rw [List.append_nil] at hread
      refine .inl ⟨deliver { link with far := .member [] session }
        (Refusal.protocol reason).reply.encode, host_deliver .., ⟨session, far_deliver ..⟩,
        fun service => ?_⟩
      have hdrain := Connection.drain_of_malformed service Connection.usualQueryBuffer
        (.mk network session (encodeCommandLine line) []) hread
      simp only [memberReceives, Connection.receive, List.nil_append, if_neg hlong,
        Connection.withBuffer, hdrain, Connection.tell]

/-- The far end of a connection to a member executes nothing, or the line once. -/
theorem farEndReceives_cases {member : Member}
    (hmember : network.member? link.host = some member) (hlink : link.Idle) (hne : line ≠ []) :
    (∃ after : Link, after.host = link.host ∧ after.Idle ∧ ∀ serviceAt,
      farEndReceives serviceAt network link (encodeCommandLine line) = (after, network)) ∨
    ∃ session, ∀ serviceAt, farEndReceives serviceAt network link (encodeCommandLine line) =
      let served := serviceAt link.host network session line
      (deliver { link with far := .member [] served.session } served.reply.encode,
        served.state) := by
  obtain ⟨session, hfar⟩ := id hlink
  have hhost := host?_of_member? hmember
  cases hclosed : isClosed link with
  | true => exact .inl ⟨link, rfl, hlink, fun _ => by simp only [farEndReceives, hclosed, if_true]⟩
  | false =>
    cases hserving : member.serving with
    | false =>
      refine .inl ⟨closeFarEnd link, rfl, ⟨session, hfar⟩, fun _ => ?_⟩
      simp only [farEndReceives, hclosed, hhost, hfar, hserving, Bool.false_eq_true, if_false]
    | true =>
      simp only [farEndReceives, hclosed, hhost, hfar, hserving, Bool.false_eq_true, if_false,
        if_true]
      rcases memberReceives_cases network hfar hne with ⟨after, hafter, hidle, heq⟩ | heq
      · exact .inl ⟨after, hafter, hidle, fun _ => heq _⟩
      · exact .inr ⟨session, fun _ => heq _⟩

/-- A request is not executed, whatever members would do with it, or it is executed once. -/
theorem ask_cases {member : Member} (hmember : network.member? link.host = some member)
    (hlink : link.Idle) (hne : line ≠ []) :
    (∃ (result : Except Failure Value) (after : Link), after.host = link.host ∧ after.Idle ∧
      ∀ serviceAt, ask serviceAt network link line = (result, after, network)) ∨
    ∃ (session : Session) (answer : Served Network → Except Failure Value × Link),
      (∀ served, (answer served).2.host = link.host ∧ (answer served).2.Idle) ∧
      ∀ serviceAt, ask serviceAt network link line =
        let served := serviceAt link.host network session line
        ((answer served).1, (answer served).2, served.state) := by
  rcases farEndReceives_cases hmember hlink hne with
    ⟨after, hhost, hidle, heq⟩ | ⟨session, heq⟩
  · refine .inl ⟨(after.client.send line).result, { after with
      client := (after.client.send line).client }, hhost, hidle, fun serviceAt => ?_⟩
    simp only [ask, heq]
  · let told (served : Served Network) : Link :=
      deliver { link with far := .member [] served.session } served.reply.encode
    refine .inr ⟨session, fun served => (((told served).client.send line).result,
      { told served with client := ((told served).client.send line).client }), fun served => ?_,
      fun serviceAt => ?_⟩
    · exact ⟨host_deliver .., served.session, far_deliver ..⟩
    · simp only [ask, heq, told]

end Network

namespace Pool

variable {σ κ : Type} {P : κ → Prop}

/-- What a search among idle connections finds, and what it leaves, was there. -/
theorem takeIdle_subset (isValid : κ → Bool) {idle left : List κ} {found : Option κ}
    {events : List (PoolEvent κ)} (h : takeIdle isValid idle = (events, found, left)) :
    (∀ connection ∈ found, connection ∈ idle) ∧ left ⊆ idle := by
  induction idle generalizing events with
  | nil =>
    cases h
    exact ⟨nofun, List.Subset.refl _⟩
  | cons connection rest ih =>
    rw [takeIdle] at h
    split at h
    · cases h
      refine ⟨fun other hother => ?_, List.subset_cons_self _ _⟩
      rw [← Option.some.inj hother]
      exact List.mem_cons_self
    · generalize hrest : takeIdle isValid rest = searched at h
      obtain ⟨more, found', left'⟩ := searched
      cases h
      obtain ⟨hfound, hleft⟩ := ih hrest
      exact ⟨fun other hother => List.mem_cons_of_mem _ (hfound other hother),
        List.subset_cons_of_subset _ hleft⟩

/-- What holds of all idle connections and of a new one holds of the one that is handed out and of
those that stay. -/
theorem borrow_all {pool : Pool κ} {isValid : κ → Bool} {create : σ → Except Failure κ × σ}
    {state next : σ} {step : PoolStep κ (Loan κ)} (hidle : ∀ connection ∈ pool.idle, P connection)
    (hcreate : ∀ connection, (create state).1 = .ok connection → P connection)
    (h : pool.borrow isValid create state = (step, next)) :
    (∀ connection ∈ step.pool.idle, P connection) ∧
      (∀ connection, step.result = .granted connection → P connection) ∧
      (next = state ∨ next = (create state).2) := by
  -- a closed pool and one without permits hand out nothing and keep what they have
  unfold borrow at h
  split at h
  · cases h
    refine ⟨hidle, fun connection hgranted => ?_, .inl rfl⟩
    cases hgranted
  split at h
  · cases h
    refine ⟨hidle, fun connection hgranted => ?_, .inl rfl⟩
    cases hgranted
  simp only [checkOut] at h
  generalize hsearch : takeIdle isValid pool.idle = search at h
  obtain ⟨events, found, left⟩ := search
  obtain ⟨hfound, hleft⟩ := takeIdle_subset isValid hsearch
  have hleft' : ∀ connection ∈ left, P connection := fun connection hin => hidle _ (hleft hin)
  cases found with
  | some connection =>
    cases h
    refine ⟨hleft', fun other hother => ?_, .inl rfl⟩
    cases hother
    exact hidle _ (hfound _ rfl)
  | none =>
    generalize hopen : create state = opened at h hcreate
    obtain ⟨made, after⟩ := opened
    cases made with
    | ok connection =>
      cases h
      refine ⟨hleft', fun other hother => ?_, .inr rfl⟩
      cases hother
      exact hcreate connection rfl
    | error failure =>
      cases h
      refine ⟨hleft', fun connection hgranted => ?_, .inr rfl⟩
      cases hgranted

/-- A connection that comes back is the only one that may join the idle ones. -/
theorem giveBack_all {pool : Pool κ} {connection : κ}
    (hidle : ∀ connection ∈ pool.idle, P connection) (hconnection : P connection) :
    ∀ idle ∈ (pool.giveBack connection).pool.idle, P idle := by
  unfold giveBack
  split
  · exact hidle
  · split
    · exact List.forall_mem_cons.2 ⟨hconnection, hidle⟩
    · exact hidle

end Pool

end RingStore

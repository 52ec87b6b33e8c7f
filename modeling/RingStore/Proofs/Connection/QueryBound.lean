import RingStore.Proofs.Connection.Dialogue

/-!
# The bound on what waits

A connection bounds the bytes that it has received and that complete no request yet. It looks at
its bound after each read and *before* it answers what has arrived, so that whole requests count,
too. A client whose requests are all within the bound is still cut off if one read brings several
of them.

Of such a client nothing more than the bound ever waits once the requests that have arrived are
answered. So what goes beyond the bound always holds a whole request, which is lost.

## Main definitions

* `Wire.RequestsWithin`: no request of a stream is longer than a limit.

## Main results

* `Wire.RequestsWithin.length_left_le`: what waits, with all whole requests answered.
* `Connection.handle_of_overrun`: a read that goes beyond the bound.
* `Connection.handle_within_bound`: when a client whose requests are within the bound is cut off.
-/

namespace RingStore

namespace Wire

/-- No request of a stream is longer than the limit, nor is the incomplete one at its end. -/
inductive RequestsWithin (limit : Nat) : Bytes → Prop where
  /-- The first request is not too long, and the others are not. -/
  | request {stream rest : Bytes} {value : Value} (hread : read stream = .done value rest)
    (hlength : stream.length ≤ limit + rest.length) (hrest : RequestsWithin limit rest) :
    RequestsWithin limit stream
  /-- No further request is complete, and what is left is not too long. -/
  | left {stream : Bytes} (hread : ∀ value rest, read stream ≠ .done value rest)
    (hlength : stream.length ≤ limit) : RequestsWithin limit stream

/-- A value of which only a part had arrived takes more bytes than this part. -/
theorem length_le_of_read_append {arrived more rest : Bytes} {value : Value}
    (harrived : ∀ value rest, read arrived ≠ .done value rest)
    (hread : read (arrived ++ more) = .done value rest) : rest.length ≤ more.length := by
  obtain ⟨taken, htaken, htakes⟩ := stable_read.takes hread
  refine Nat.not_lt.1 fun hlt => ?_
  -- the part would hold the whole value
  have hlength := congrArg List.length htaken
  simp only [List.length_append] at hlength
  obtain ⟨between, rfl⟩ : taken <+: arrived :=
    List.prefix_of_prefix_length_le ⟨rest, htaken.symm⟩ (List.prefix_append _ _) (by omega)
  exact harrived _ _ (htakes between)

/-- With the whole requests answered, no more than the limit waits of such a stream. -/
theorem RequestsWithin.length_left_le {limit : Nat} {arrived more : Bytes}
    (h : RequestsWithin limit (arrived ++ more)) : (readAll arrived).2.length ≤ limit := by
  induction arrived using readAll.induct with
  | case1 arrived value rest hread _ _ _ _ ih =>
    rw [readAll_of_done hread]
    have hmore := stable_read.append more hread
    cases h with
    | request hfirst _ hrest =>
      rw [hmore] at hfirst
      cases hfirst
      exact ih hrest
    | left hnone _ => exact absurd hmore (hnone _ _)
  | case2 arrived hread =>
    rw [readAll_of_not_done hread]
    dsimp only
    cases h with
    | request hfirst hlength _ =>
      have hle := length_le_of_read_append hread hfirst
      rw [List.length_append] at hlength
      omega
    | left _ hlength =>
      rw [List.length_append] at hlength
      omega

/-- What goes beyond the limit while requests of such a stream arrive holds a whole request. -/
theorem RequestsWithin.readAll_ne_nil {limit : Nat} {arrived chunk more : Bytes}
    (h : RequestsWithin limit (arrived ++ chunk ++ more))
    (hlong : limit < ((readAll arrived).2 ++ chunk).length) :
    (readAll ((readAll arrived).2 ++ chunk)).1 ≠ [] := by
  intro hnone
  -- otherwise all of it is an incomplete request, and these are within the limit
  have hleft := h.length_left_le
  rw [readAll_append, readAll_of_fst_eq_nil hnone] at hleft
  exact absurd hlong (Nat.not_lt.2 hleft)

end Wire

namespace Connection

variable {σ : Type}

/-- A read that brings a connection beyond its bound ends it, whatever has arrived. -/
theorem handle_of_overrun {connection : Connection σ} (service : Service σ) {limit : Nat}
    (hread : Wire.read connection.buffer = .incomplete) {chunk : Bytes}
    (hover : limit < (connection.buffer ++ chunk).length) (later : List Bytes) :
    connection.handle service ⟨limit, none⟩ none none (chunk :: later) =
      ((connection.withBuffer []).tell Refusal.queryTooLong.reply, some bufferExceeded) := by
  rw [Connection.handle, drain_of_incomplete service limit connection hread]
  simp only [receive, if_pos hover, send, reduceCtorEq, if_false]

theorem readsWithin_nil (limit : Nat) (buffer : Bytes) : ReadsWithin limit buffer [] :=
  fun early chunk hearly => absurd (List.prefix_nil.1 hearly) (by simp)

theorem readsWithin_concat_iff {limit : Nat} {buffer chunk : Bytes} {early : List Bytes} :
    ReadsWithin limit buffer (early ++ [chunk]) ↔ ReadsWithin limit buffer early ∧
      ((Wire.readAll (buffer ++ early.flatten)).2 ++ chunk).length ≤ limit := by
  constructor
  · intro h
    refine ⟨fun earlier next hnext => h earlier next (hnext.trans (List.prefix_append _ _)), ?_⟩
    exact h early chunk (List.prefix_refl _)
  · rintro ⟨hearly, hchunk⟩ earlier next hnext
    rcases List.prefix_concat_iff.1 hnext with heq | hnext
    · obtain ⟨rfl, hlast⟩ := List.append_inj' heq rfl
      obtain rfl := (List.cons.inj hlast).1
      exact hchunk
    · exact hearly earlier next hnext

/-- A client no request of which is malformed or longer than the bound is answered as in the
dialogue as long as each read stays within the bound together with the incomplete request that
waits for it. The first read that does not ends the connection. What had arrived before it is
answered, and then the client is told that it sent too much; at least one request that had arrived
whole is lost. -/
theorem handle_within_bound (service : Service σ) (state : σ) {limit : Nat} {chunks : List Bytes}
    (hread : ∀ early, early <+: chunks → Wire.Readable early.flatten)
    (hrequests : Wire.RequestsWithin limit chunks.flatten) :
    (ReadsWithin limit [] chunks →
      let (requests, left) := Wire.readAll chunks.flatten
      let dialogue := (Dialogue.start state).takeAll service requests
      let (ended, failure) := (start state).handle service ⟨limit, none⟩ none none chunks
      ended.sent = dialogue.replies.flatMap Value.encode ∧
        ended.state = dialogue.state ∧ ended.session = dialogue.session ∧
        failure = if left = [] then none else some resetByPeer) ∧
    ∀ early chunk later, chunks = early ++ chunk :: later → ReadsWithin limit [] early →
      ¬ReadsWithin limit [] (early ++ [chunk]) →
      let (requests, left) := Wire.readAll early.flatten
      let dialogue := (Dialogue.start state).takeAll service requests
      let (ended, failure) := (start state).handle service ⟨limit, none⟩ none none chunks
      ended.sent = dialogue.replies.flatMap Value.encode ++
          (Value.error "ERR max query buffer length exceeded").encode ∧
        ended.state = dialogue.state ∧ ended.session = dialogue.session ∧
        failure = some bufferExceeded ∧ (Wire.readAll (left ++ chunk)).1 ≠ [] := by
  constructor
  · intro hfits
    obtain ⟨ended, hended, hshows⟩ :=
      (shows_start state).handle_of_takes service ⟨hread, hfits⟩ (Nat.zero_le limit)
    simp only [hended]
    exact ⟨hshows.sent, hshows.state, hshows.session, rfl⟩
  · rintro early chunk later rfl hearly hover
    have htakes : Takes limit [] early :=
      ⟨fun earlier hearlier => hread earlier (hearlier.trans (List.prefix_append _ _)), hearly⟩
    -- up to the read that is too long it is the dialogue, and an incomplete request is left
    obtain ⟨reached, hreached, hleft, hwaits⟩ :=
      (shows_start state).handle_append service htakes (Nat.zero_le limit) (chunk :: later)
    have hlong : limit < ((Wire.readAll early.flatten).2 ++ chunk).length :=
      Nat.not_le.1 fun hle => hover (readsWithin_concat_iff.2 ⟨hearly, hle⟩)
    have hover : limit < (reached.buffer ++ chunk).length := by
      rw [hleft]
      exact hlong
    simp only [hreached, handle_of_overrun service hwaits.incomplete hover]
    refine ⟨congrArg (· ++ _) hwaits.sent, hwaits.state, hwaits.session, trivial, ?_⟩
    -- without a whole request in it, what is over the bound would be a request over the bound
    rw [List.flatten_append, List.flatten_cons, ← List.append_assoc] at hrequests
    exact hrequests.readAll_ne_nil hlong

/-- A request of six bytes. -/
def ping : Bytes :=
  Text.toBytes "PING\r\n"

/-- Three such requests. -/
def pings : Bytes :=
  ping ++ (ping ++ (ping ++ []))

theorem read_ping_append (rest : Bytes) :
    Wire.read (ping ++ rest) = .done (.array [.bulk (Text.toBytes "PING")]) rest := by
  have hread : Wire.read ping = .done (.array [.bulk (Text.toBytes "PING")]) [] := rfl
  exact Wire.stable_read.append rest hread

theorem readAll_ping_append (rest : Bytes) :
    Wire.readAll (ping ++ rest) =
      (.array [.bulk (Text.toBytes "PING")] :: (Wire.readAll rest).1, (Wire.readAll rest).2) :=
  Wire.readAll_of_done (read_ping_append rest)

theorem readAll_take_ping : Wire.readAll (ping.take 2) = ([], ping.take 2) :=
  Wire.readAll_of_not_done fun _ _ hread => nomatch hread

theorem requestsWithin_pings {limit : Nat} (h : 6 ≤ limit) : Wire.RequestsWithin limit pings := by
  have hping (rest : Bytes) (hrest : Wire.RequestsWithin limit rest) :
      Wire.RequestsWithin limit (ping ++ rest) := by
    refine .request (read_ping_append rest) ?_ hrest
    rw [List.length_append]
    exact Nat.add_le_add_right h _
  exact hping _ (hping _ (hping _ (.left (fun _ _ hread => nomatch hread) (Nat.zero_le limit))))

/-- However they are cut, no part of them is malformed. -/
theorem readable_of_flatten_eq_pings {chunks : List Bytes} (hchunks : chunks.flatten = pings) :
    ∀ early, early <+: chunks → Wire.Readable early.flatten := by
  have hpings : Wire.Readable pings := by
    intro reason hread
    simp only [pings, readAll_ping_append, Wire.readAll_nil] at hread
    cases hread
  have htakes : Takes Wire.maxInlineLength [] chunks := by
    refine .of_length_le ?_ ?_
    · rw [List.nil_append, hchunks]
      decide +kernel
    · rw [List.nil_append, hchunks]
      exact hpings
  exact htakes.readable

/-- They arrive in two reads, cut within the second request. -/
def cutPings : List Bytes :=
  [ping ++ ping.take 2] ++ [ping.drop 2 ++ ping]

/-- The first read brings eight bytes, and the second one makes twelve bytes wait. -/
theorem readsWithin_cutPings_iff {limit : Nat} :
    (ReadsWithin limit [] [ping ++ ping.take 2] ↔ 8 ≤ limit) ∧
      (ReadsWithin limit [] cutPings ↔ 12 ≤ limit) := by
  have hfirst : ReadsWithin limit [] [ping ++ ping.take 2] ↔ 8 ≤ limit := by
    have hlength : ((Wire.readAll ([] ++ [].flatten)).2 ++ (ping ++ ping.take 2)).length = 8 := by
      rw [List.flatten_nil, List.append_nil, Wire.readAll_nil]
      decide +kernel
    rw [← List.nil_append [ping ++ ping.take 2], readsWithin_concat_iff, hlength]
    exact and_iff_right (readsWithin_nil limit [])
  have hlength : ((Wire.readAll ([] ++ [ping ++ ping.take 2].flatten)).2 ++
      (ping.drop 2 ++ ping)).length = 12 := by
    rw [List.nil_append, List.flatten_singleton, readAll_ping_append, readAll_take_ping]
    decide +kernel
  refine ⟨hfirst, ?_⟩
  rw [cutPings, readsWithin_concat_iff, hfirst, hlength]
  omega

/-- Where twelve bytes may wait all three are answered. Where eight may, only the first one is. -/
theorem handle_within_bound_cutPings :
    (∀ early, early <+: cutPings → Wire.Readable early.flatten) ∧
    Wire.RequestsWithin 12 cutPings.flatten ∧ ReadsWithin 12 [] cutPings ∧
    Wire.RequestsWithin 8 cutPings.flatten ∧ ReadsWithin 8 [] [ping ++ ping.take 2] ∧
    ¬ReadsWithin 8 [] cutPings ∧
    (let (ended, failure) := (start (Node.empty Catalogue.registry 16)).handle Node.serve ⟨12, none⟩
      none none cutPings
    ended.sent = Text.toBytes "+PONG\r\n+PONG\r\n+PONG\r\n" ∧ failure = none) ∧
    let (ended, failure) := (start (Node.empty Catalogue.registry 16)).handle Node.serve ⟨8, none⟩
      none none cutPings
    ended.sent = Text.toBytes "+PONG\r\n-ERR max query buffer length exceeded\r\n" ∧
      failure = some bufferExceeded := by
  have hflatten : cutPings.flatten = pings := by decide +kernel
  have hread := readable_of_flatten_eq_pings hflatten
  have hwithin {limit : Nat} (h : 6 ≤ limit) : Wire.RequestsWithin limit cutPings.flatten :=
    hflatten ▸ requestsWithin_pings h
  have hroom : ReadsWithin 12 [] cutPings := readsWithin_cutPings_iff.2.2 (Nat.le_refl 12)
  have hfirst : ReadsWithin 8 [] [ping ++ ping.take 2] :=
    readsWithin_cutPings_iff.1.2 (Nat.le_refl 8)
  have hover : ¬ReadsWithin 8 [] cutPings := fun h =>
    absurd (readsWithin_cutPings_iff.2.1 h) (by decide)
  refine ⟨hread, hwithin (by decide), hroom, hwithin (by decide), hfirst, hover, ?_, ?_⟩
  · have h := (handle_within_bound Node.serve (Node.empty Catalogue.registry 16) hread
      (hwithin (by decide))).1 hroom
    simp only [hflatten, pings, readAll_ping_append, Wire.readAll_nil] at h
    exact ⟨h.1.trans (by decide +kernel), h.2.2.2⟩
  · have h := (handle_within_bound Node.serve (Node.empty Catalogue.registry 16) hread
      (hwithin (by decide))).2 [ping ++ ping.take 2] (ping.drop 2 ++ ping) [] rfl hfirst hover
    simp only [List.flatten_singleton, readAll_ping_append, readAll_take_ping] at h
    exact ⟨h.1.trans (by decide +kernel), h.2.2.2.1⟩

/-- Three requests of six bytes are not answered if they arrive at once where six bytes may wait. -/
theorem not_forall_answered_within :
    ¬∀ (limit : Nat) (chunks : List Bytes),
      (∀ early, early <+: chunks → Wire.Readable early.flatten) →
      Wire.RequestsWithin limit chunks.flatten →
      ((start (Node.empty Catalogue.registry 16)).handle Node.serve ⟨limit, none⟩ none none
        chunks).2 ≠ some bufferExceeded := by
  intro h
  have hflatten : [pings].flatten = pings := List.flatten_singleton
  refine h 6 [pings] (readable_of_flatten_eq_pings hflatten) ?_ ?_
  · rw [hflatten]
    exact requestsWithin_pings (Nat.le_refl 6)
  · rw [handle_of_overrun _ rfl (by decide +kernel)]

end Connection

end RingStore

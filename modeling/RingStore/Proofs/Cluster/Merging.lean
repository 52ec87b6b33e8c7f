import Mathlib.Data.Set.List
import RingStore.Proofs.Cluster.Errands
import RingStore.Proofs.Cluster.Members

/-!
# One reply out of many

The replies of all members become one, and that one is to account for every member: the first error
is the reply, all replies of the expected kind are put together, and a reply of another kind makes
an error. It does so whenever some member refuses or all give what is expected, and always where all
must acknowledge. In a sum or a concatenation a reply of another kind is passed over, so that the
reply accounts for the other members only. Where owners count their own keys nothing is passed over.

## Main definitions

* `Merge.Covers`: a reply accounts for the replies of all members.
* `Coordinator.repliesTo`: the replies of members that are asked one after the other.

## Main results

* `Merge.covers_combine`, `Merge.covers_combine_expected`: for whom the reply out of all accounts.
* `Coordinator.merged_reply_covers`: the same for command lines, and for lines that are split.
* `Coordinator.not_forall_merged_reply_covers`: a member that is passed over.
-/

namespace RingStore

/-- There is no 64-bit signed number of this value. -/
def Beyond (number : Int) : Prop :=
  number < Int64.minValue.toInt ∨ Int64.maxValue.toInt < number

/-- The exact sum of numbers. -/
def exactSum : List Int64 → Int
  | [] => 0
  | number :: rest => number.toInt + exactSum rest

/-- A sum of two numbers that is found is exact. -/
theorem toInt_of_addChecked {left right sum : Int64} (h : addChecked left right = some sum) :
    sum.toInt = left.toInt + right.toInt := by
  rw [addChecked] at h
  split at h
  · next hrange =>
    have hlow : Int64.minValue.toInt = -2 ^ 63 := rfl
    have hhigh : Int64.maxValue.toInt = 2 ^ 63 - 1 := rfl
    cases h
    rw [hlow, hhigh] at hrange
    exact Int64.toInt_ofInt_of_le hrange.1 (by omega)
  · cases h

/-- Two numbers whose sum is not found have none. -/
theorem beyond_of_addChecked {left right : Int64} (h : addChecked left right = none) :
    Beyond (left.toInt + right.toInt) := by
  rw [addChecked] at h
  split at h
  · cases h
  · next hrange =>
    rw [Beyond]
    omega

/-- The outcome of adding up numbers, from a first one on: a fault once there is no sum. -/
def sumOutcome (start : Int64) (numbers : List Int64) : Outcome :=
  match numbers.foldlM addChecked start with
  | some sum => .reply (.integer sum)
  | none => .fault

/-- Numbers are added up exactly, or some of them, from the first one on, have no sum. -/
theorem sumOutcome_cases (start : Int64) (numbers : List Int64) :
    (∃ sum : Int64, sum.toInt = start.toInt + exactSum numbers ∧
      sumOutcome start numbers = .reply (.integer sum)) ∨
    (∃ front, front <+: numbers ∧ Beyond (start.toInt + exactSum front)) ∧
      sumOutcome start numbers = .fault := by
  induction numbers generalizing start with
  | nil => exact .inl ⟨start, (Int.add_zero _).symm, rfl⟩
  | cons number rest ih =>
    rw [sumOutcome, List.foldlM_cons]
    cases hnext : addChecked start number with
    | none =>
      refine .inr ⟨⟨[number], List.prefix_append [number] rest, ?_⟩, rfl⟩
      rw [exactSum, exactSum, Int.add_zero]
      exact beyond_of_addChecked hnext
    | some next =>
      -- the sum so far is exact, so the rest goes on from there
      have htotal : ∀ numbers, next.toInt + exactSum numbers =
          start.toInt + exactSum (number :: numbers) := fun numbers => by
        rw [toInt_of_addChecked hnext, exactSum, Int.add_assoc]
      rcases ih next with ⟨sum, hsum, hout⟩ | ⟨⟨front, hfront, hbeyond⟩, hout⟩
      · exact .inl ⟨sum, hsum.trans (htotal rest), hout⟩
      · refine .inr ⟨⟨number :: front, (List.prefix_cons_inj number).2 hfront, ?_⟩, hout⟩
        rwa [← htotal]

namespace Merge

/-- The reply is of the kind that is put together with others of its kind. -/
def Expects : Merge → Value → Bool
  | allOk, reply => reply.isOk
  | sumIntegers, reply => reply.integer?.isSome
  | concatArrays, reply => reply.items?.isSome

/-- A reply accounts for the replies of all members, which are given in the members' order. -/
inductive Covers : Merge → List Value → Value → Prop where
  /-- It is the first error among them. -/
  | firstError {merge : Merge} {front back : List Value} {text : String}
      (clean : ∀ reply ∈ front, reply.isError = false) :
      Covers merge (front ++ .error text :: back) (.error text)
  /-- All members acknowledge. -/
  | acknowledgement {replies : List Value} (all : ∀ reply ∈ replies, reply = .ok) :
      Covers allOk replies .ok
  /-- It is the sum of all numbers. -/
  | sum {numbers : List Int64} {sum : Int64} (exact : sum.toInt = exactSum numbers) :
      Covers sumIntegers (numbers.map .integer) (.integer sum)
  /-- The numbers have no sum that could be given, and this is an error. -/
  | noSum {numbers front : List Int64} (part : front <+: numbers)
      (beyond : Beyond (exactSum front)) (text : String) :
      Covers sumIntegers (numbers.map .integer) (.error text)
  /-- It is all arrays one after the other. -/
  | concatenation (arrays : List (List Value)) :
      Covers concatArrays (arrays.map .array) (.array arrays.flatten)
  /-- Some member's reply is not what is expected, and this is an error. -/
  | unexpected {merge : Merge} {replies : List Value} {odd : Value}
      (clean : ∀ reply ∈ replies, reply.isError = false) (given : odd ∈ replies)
      (other : merge.Expects odd = false) (text : String) : Covers merge replies (.error text)

variable {merge : Merge} {replies : List Value}

theorem eq_ok_of_isOk {reply : Value} (h : reply.isOk = true) : reply = .ok := by
  cases reply with
  | simple text => rw [Value.ok, beq_iff_eq.1 h]
  | _ => cases h

/-- Replies that all are made in one way are made of a list. -/
theorem exists_map_of_range {α : Type} {make : α → Value}
    (h : ∀ reply ∈ replies, reply ∈ Set.range make) :
    ∃ given : List α, replies = given.map make := by
  have hrange : replies ∈ Set.range (List.map make) := by
    rw [Set.range_list_map]
    exact h
  obtain ⟨given, hgiven⟩ := hrange
  exact ⟨given, hgiven.symm⟩

theorem exists_map_integer (h : ∀ reply ∈ replies, sumIntegers.Expects reply = true) :
    ∃ numbers : List Int64, replies = numbers.map .integer := by
  refine exists_map_of_range fun reply hreply => ?_
  cases reply with
  | integer number => exact ⟨number, rfl⟩
  | _ => cases h _ hreply

theorem exists_map_array (h : ∀ reply ∈ replies, concatArrays.Expects reply = true) :
    ∃ arrays : List (List Value), replies = arrays.map .array := by
  refine exists_map_of_range fun reply hreply => ?_
  cases reply with
  | array items => exact ⟨items, rfl⟩
  | _ => cases h _ hreply

/-- The outcome of adding up all numbers accounts for all of them. -/
theorem covers_sumOutcome (numbers : List Int64) :
    sumIntegers.Covers (numbers.map .integer) (sumOutcome 0 numbers).toReply := by
  have hzero : ∀ numbers, (0 : Int64).toInt + exactSum numbers = exactSum numbers := fun _ =>
    Int.zero_add _
  rcases sumOutcome_cases 0 numbers with ⟨sum, hsum, hout⟩ | ⟨⟨front, hfront, hbeyond⟩, hout⟩
  · rw [hout]
    exact .sum (hsum.trans (hzero numbers))
  · rw [hout]
    exact .noSum hfront (hzero front ▸ hbeyond) _

/-- Without an error the replies are put together. -/
theorem find?_isError_of_clean (clean : ∀ reply ∈ replies, reply.isError = false) :
    replies.find? Value.isError = none :=
  List.find?_eq_none.2 fun reply hreply => Bool.eq_false_iff.1 (clean reply hreply)

theorem combine_sumIntegers_of_clean (clean : ∀ reply ∈ replies, reply.isError = false) :
    sumIntegers.combine replies = sumOutcome 0 (replies.filterMap Value.integer?) := by
  cases hsum : (replies.filterMap Value.integer?).foldlM addChecked 0 with
  | some sum => simp only [combine, find?_isError_of_clean clean, sumOutcome, hsum]
  | none => simp only [combine, find?_isError_of_clean clean, sumOutcome, hsum]

/-- If some member refuses, the first refusal is the reply. -/
theorem covers_combine_of_isError (h : ∃ reply ∈ replies, reply.isError = true) :
    merge.Covers replies (merge.combine replies).toReply := by
  obtain ⟨first, hfirst⟩ := Option.isSome_iff_exists.1 (List.find?_isSome.2 h)
  obtain ⟨herror, front, back, rfl, hfront⟩ := List.find?_eq_some_iff_append.1 hfirst
  simp only [combine, hfirst, Outcome.toReply]
  cases first with
  | error text => exact .firstError fun reply hreply => by simpa using hfront reply hreply
  | _ => cases herror

/-- If every member gives what is expected, the replies are put together. -/
theorem covers_combine_of_expects (h : ∀ reply ∈ replies, merge.Expects reply = true) :
    merge.Covers replies (merge.combine replies).toReply := by
  cases merge with
  | allOk =>
    have hall : ∀ reply ∈ replies, reply = .ok := fun reply hreply =>
      eq_ok_of_isOk (h reply hreply)
    rw [combine_allOk hall]
    exact .acknowledgement hall
  | sumIntegers =>
    obtain ⟨numbers, rfl⟩ := exists_map_integer h
    have hnumbers : (numbers.map Value.integer).filterMap Value.integer? = numbers := by
      rw [List.filterMap_map]
      exact List.filterMap_some
    rw [combine_sumIntegers_of_clean (by simp [Value.isError]), hnumbers]
    exact covers_sumOutcome numbers
  | concatArrays =>
    obtain ⟨arrays, rfl⟩ := exists_map_array h
    have hcombine : concatArrays.combine (arrays.map .array) =
        .reply (.array (arrays.flatMap id)) := combine_concatArrays arrays id
    rw [hcombine, ← List.flatten_eq_flatMap]
    exact .concatenation arrays

/-- A reply that accounts for all members without being an error puts together what all of them
give. -/
theorem Covers.expects {reply : Value} (h : merge.Covers replies reply)
    (hreply : reply.isError = false) : ∀ given ∈ replies, merge.Expects given = true := by
  cases h with
  | firstError => cases hreply
  | acknowledgement all =>
    intro given hgiven
    rw [all given hgiven]
    rfl
  | sum =>
    intro given hgiven
    obtain ⟨number, -, rfl⟩ := List.mem_map.1 hgiven
    rfl
  | noSum => cases hreply
  | concatenation arrays =>
    intro given hgiven
    obtain ⟨items, -, rfl⟩ := List.mem_map.1 hgiven
    rfl
  | unexpected => cases hreply

/-- A reply accounts for all members exactly if it is an error or every member gives what is
expected. -/
theorem covers_combine_iff : merge.Covers replies (merge.combine replies).toReply ↔
    (merge.combine replies).toReply.isError = true ∨
      ∀ reply ∈ replies, merge.Expects reply = true := by
  constructor
  · intro hcovers
    rw [or_iff_not_imp_left, Bool.not_eq_true]
    exact hcovers.expects
  · rintro (herror | hall)
    · by_cases hany : ∃ reply ∈ replies, reply.isError = true
      · exact covers_combine_of_isError hany
      by_cases hall : ∀ reply ∈ replies, merge.Expects reply = true
      · exact covers_combine_of_expects hall
      · -- the error is due to a member that neither refuses nor gives what is expected
        simp only [not_exists, not_and, Bool.not_eq_true] at hany
        simp only [not_forall, Bool.not_eq_true] at hall
        obtain ⟨odd, hodd, hother⟩ := hall
        cases hreply : (merge.combine replies).toReply with
        | error text => exact .unexpected hany hodd hother text
        | _ =>
          rw [hreply] at herror
          cases herror
    · exact covers_combine_of_expects hall

/-- Where all must acknowledge, any other reply makes an error. -/
theorem isError_combine_allOk (h : ¬∀ reply ∈ replies, allOk.Expects reply = true) :
    (allOk.combine replies).toReply.isError = true := by
  have hnot : replies.all Value.isOk = false :=
    Bool.eq_false_iff.2 fun hall => h (List.all_eq_true.1 hall)
  cases hfind : replies.find? Value.isError with
  | some error =>
    simp only [combine, hfind, Outcome.toReply]
    exact List.find?_some hfind
  | none =>
    simp only [combine, hfind, hnot, Outcome.toReply]
    rfl

/-- A reply accounts for all members if all must acknowledge, or some member refuses, or every
member gives what is expected. -/
theorem covers_combine (h : merge = .allOk ∨ (∃ reply ∈ replies, reply.isError = true) ∨
    ∀ reply ∈ replies, merge.Expects reply = true) :
    merge.Covers replies (merge.combine replies).toReply := by
  rcases h with rfl | herror | hall
  · by_cases hall : ∀ reply ∈ replies, allOk.Expects reply = true
    · exact covers_combine_of_expects hall
    · exact covers_combine_iff.2 (.inl (isError_combine_allOk hall))
  · exact covers_combine_of_isError herror
  · exact covers_combine_of_expects hall

/-- In a sum and in a concatenation, replies of another kind than the expected one make no
difference. -/
theorem combine_filter_expects (hmerge : merge ≠ .allOk)
    (clean : ∀ reply ∈ replies, reply.isError = false) :
    merge.combine replies = merge.combine (replies.filter merge.Expects) := by
  have hclean : ∀ reply ∈ replies.filter merge.Expects, reply.isError = false :=
    fun reply hreply => clean reply (List.mem_filter.1 hreply).1
  cases merge with
  | allOk => exact absurd rfl hmerge
  | sumIntegers =>
    rw [combine_sumIntegers_of_clean clean, combine_sumIntegers_of_clean hclean,
      List.filterMap_filter]
    congr 2
    funext reply
    cases reply <;> rfl
  | concatArrays =>
    have hitems :
        (replies.filter concatArrays.Expects).flatMap (fun reply => reply.items?.getD []) =
          replies.flatMap fun reply => reply.items?.getD [] := by
      clear clean hclean
      induction replies with
      | nil => rfl
      | cons reply rest ih =>
        rw [List.filter_cons, List.flatMap_cons]
        split
        · rw [List.flatMap_cons, ih]
        · -- a reply that is no array has no items, like one that is left out
          next hother =>
          rw [Expects, Bool.not_eq_true, Option.isSome_eq_false_iff, Option.isNone_iff_eq_none]
            at hother
          rw [ih, hother]
          rfl
    simp only [combine, find?_isError_of_clean clean, find?_isError_of_clean hclean, hitems]

/-- In a sum and in a concatenation without an error, the reply accounts for those members only that
give what is expected. -/
theorem covers_combine_expected (hmerge : merge ≠ .allOk)
    (clean : ∀ reply ∈ replies, reply.isError = false) :
    merge.Covers (replies.filter merge.Expects) (merge.combine replies).toReply := by
  rw [combine_filter_expects hmerge clean]
  exact covers_combine_of_expects fun reply hreply => (List.mem_filter.1 hreply).2

end Merge

namespace Coordinator

section Asking

variable {σ : Type} (coordinator : Coordinator) (surroundings : Surroundings σ)

/-- The replies of members that are asked to do errands one after the other. -/
def repliesTo : List Errand → σ → Session → List Value
  | [], _, _ => []
  | errand :: rest, state, session =>
    let served := coordinator.relay surroundings errand.member state session errand.line
    served.reply :: repliesTo rest served.state served.session

/-- Members that execute a line one after the other give the replies to their errands. -/
theorem relayAll_replies (line : CommandLine) (members : List String) (state : σ)
    (session : Session) :
    (coordinator.relayAll surroundings line state session members).1.map Prod.snd =
      coordinator.repliesTo surroundings
        (members.map fun member => ⟨member, coordinator.lineFor member line⟩) state session := by
  induction members generalizing state session with
  | nil => rfl
  | cons member rest ih =>
    simp only [relayAll, List.map_cons, repliesTo]
    rw [ih]

/-- If every owner gives a number, the numbers are added up. -/
theorem outcome_sumGroups (name : Bytes) (groups : List (String × List Bytes)) (total : Int64)
    (state : σ) (session : Session) {numbers : List Int64}
    (h : coordinator.repliesTo surroundings
      (groups.map fun group => ⟨group.1, name :: group.2⟩) state session =
        numbers.map .integer) :
    (coordinator.sumGroups surroundings name total state session groups).outcome =
      sumOutcome total numbers := by
  induction groups generalizing total state session numbers with
  | nil =>
    obtain rfl := List.map_eq_nil_iff.1 h.symm
    rfl
  | cons group rest ih =>
    rw [List.map_cons, repliesTo] at h
    obtain ⟨number, more, rfl, hnumber, hmore⟩ := List.map_eq_cons_iff.1 h.symm
    rw [sumOutcome, List.foldlM_cons]
    simp only [sumGroups, ← hnumber]
    cases addChecked total number with
    | none => rfl
    | some sum => exact ih sum _ _ hmore.symm

/-- If some owner gives no number, the reply is an error. -/
theorem isError_sumGroups (name : Bytes) (groups : List (String × List Bytes)) (total : Int64)
    (state : σ) (session : Session)
    (h : ∃ reply ∈ coordinator.repliesTo surroundings
      (groups.map fun group => ⟨group.1, name :: group.2⟩) state session,
        Merge.sumIntegers.Expects reply = false) :
    (coordinator.sumGroups surroundings name total state session groups).outcome.toReply.isError =
      true := by
  induction groups generalizing total state session with
  | nil =>
    obtain ⟨reply, hreply, -⟩ := h
    cases hreply
  | cons group rest ih =>
    obtain ⟨odd, hodd, hother⟩ := h
    rw [List.map_cons, repliesTo] at hodd
    simp only [sumGroups]
    cases hreply :
      (coordinator.relay surroundings group.1 state session (name :: group.2)).reply with
    | integer count =>
      -- this one is a number, so that the one that is not comes later, or there is no sum
      have hlater := (List.mem_cons.1 hodd).resolve_left fun heq => by
        rw [heq, hreply] at hother
        cases hother
      dsimp only
      cases addChecked total count with
      | none => rfl
      | some sum => exact ih sum _ _ ⟨odd, hlater, hother⟩
    | _ => rfl

variable {coordinator surroundings} (state : σ) (session : Session) {name : Bytes} {merge : Merge}

/-- All members are asked, in their order, to do what concerns everyone. -/
theorem map_member_errands (hroute : route? (Text.lowercase (Text.ofBytes name)) =
    some (.broadcast merge)) (arguments : List Bytes) :
    (coordinator.errands (name :: arguments)).map Errand.member = coordinator.members := by
  simp only [errands, hroute, errandsBy, List.map_map]
  exact List.map_id _

/-- Of the replies of all members one is made. -/
theorem reply_broadcast (hroute : route? (Text.lowercase (Text.ofBytes name)) =
    some (.broadcast merge)) (arguments : List Bytes) :
    (coordinator.exec surroundings state session (name :: arguments)).reply =
      (merge.combine (coordinator.repliesTo surroundings
        (coordinator.errands (name :: arguments)) state session)).toReply := by
  rw [exec_broadcast _ _ _ _ hroute]
  simp only [errands, hroute, errandsBy, ← relayAll_replies]

/-- Of the replies of owners that all are numbers the sum is made, and of others an error. -/
theorem reply_splitKeys (hroute : route? (Text.lowercase (Text.ofBytes name)) = some .splitKeys)
    {keys : List Bytes} (hne : keys ≠ []) :
    let replies := coordinator.repliesTo surroundings (coordinator.errands (name :: keys)) state
      session
    let reply := (coordinator.exec surroundings state session (name :: keys)).reply
    ((∀ reply ∈ replies, Merge.sumIntegers.Expects reply = true) →
      Merge.sumIntegers.Covers replies reply) ∧
    ((∃ reply ∈ replies, Merge.sumIntegers.Expects reply = false) → reply.isError = true) := by
  rw [exec_splitKeys _ _ _ _ hroute hne]
  simp only [errands, hroute, errandsBy]
  constructor
  · intro hall
    obtain ⟨numbers, hnumbers⟩ := Merge.exists_map_integer hall
    rw [outcome_sumGroups coordinator surroundings name _ 0 state session hnumbers, hnumbers]
    exact Merge.covers_sumOutcome numbers
  · exact isError_sumGroups coordinator surroundings name _ 0 state session

end Asking

/-- No member is asked twice for one line. If all are asked, each is, in the members' order, and the
reply accounts for all of them if they must acknowledge, or some of them refuses, or every one gives
what is expected; indeed exactly if it is an error or every one gives what is expected. In a sum and
in a concatenation, if none refuses, the reply accounts for those that give what is expected. If
owners count their keys, the reply accounts for all of them, or it is an error because of one that
gives no number. -/
theorem merged_reply_covers (self : String) (peers : List String) (replicas : Nat) {σ : Type}
    (surroundings : Surroundings σ) (state : σ) (session : Session) (name : Bytes)
    (arguments : List Bytes) :
    let coordinator := ofPeers self peers replicas
    let errands := coordinator.errands (name :: arguments)
    let replies := coordinator.repliesTo surroundings errands state session
    let reply := (coordinator.exec surroundings state session (name :: arguments)).reply
    (errands.map Errand.member).Nodup ∧
      (∀ merge : Merge,
        route? (Text.lowercase (Text.ofBytes name)) = some (.broadcast merge) →
          errands.map Errand.member = coordinator.members ∧
          (merge = .allOk ∨ (∃ reply ∈ replies, reply.isError = true) ∨
            (∀ reply ∈ replies, merge.Expects reply = true) → merge.Covers replies reply) ∧
          (merge.Covers replies reply ↔
            reply.isError = true ∨ ∀ reply ∈ replies, merge.Expects reply = true) ∧
          (merge ≠ .allOk → (∀ reply ∈ replies, reply.isError = false) →
            merge.Covers (replies.filter merge.Expects) reply)) ∧
      (route? (Text.lowercase (Text.ofBytes name)) = some .splitKeys → arguments ≠ [] →
        ((∀ reply ∈ replies, Merge.sumIntegers.Expects reply = true) →
          Merge.sumIntegers.Covers replies reply) ∧
        ((∃ reply ∈ replies, Merge.sumIntegers.Expects reply = false) →
          reply.isError = true)) := by
  intro coordinator errands replies reply
  refine ⟨nodup_errands (nodup_members_ofPeers replicas) _, fun merge hroute => ?_,
    fun hroute hne => reply_splitKeys state session hroute hne⟩
  have hreply : reply = (merge.combine replies).toReply := reply_broadcast state session hroute _
  rw [hreply]
  exact ⟨map_member_errands hroute arguments, Merge.covers_combine, Merge.covers_combine_iff,
    Merge.covers_combine_expected⟩

/-- Three members, one of which is configured twice, count one key each, and the owner of a key
removes one. -/
theorem merged_reply_covers_of_counts :
    let coordinator := ofPeers "a:1" ["b:1", "c:1", "b:1"] 64
    let surroundings : Surroundings Unit :=
      ⟨fun state session _ => ⟨state, session, .integer 1⟩, fun _ state _ _ => (.integer 1, state)⟩
    let reply (line : CommandLine) := (coordinator.exec surroundings () ⟨0⟩ line).reply
    (route? (Text.lowercase (Text.ofBytes (Text.toBytes "DBSIZE"))) =
        some (.broadcast .sumIntegers) ∧
      route? (Text.lowercase (Text.ofBytes (Text.toBytes "DEL"))) = some .splitKeys) ∧
    Merge.sumIntegers.Covers [.integer 1, .integer 1, .integer 1] (reply [Text.toBytes "DBSIZE"]) ∧
    Merge.sumIntegers.Covers [.integer 1] (reply [Text.toBytes "DEL", [107]]) := by
  intro coordinator surroundings reply
  have hcount : route? (Text.lowercase (Text.ofBytes (Text.toBytes "DBSIZE"))) =
      some (.broadcast .sumIntegers) := by decide +kernel
  have hremove : route? (Text.lowercase (Text.ofBytes (Text.toBytes "DEL"))) =
      some .splitKeys := by decide +kernel
  have hmembers : coordinator.members = ["b:1", "c:1", "a:1"] := by decide
  have hasked : ∀ member line,
      coordinator.relay surroundings member () ⟨0⟩ line = ⟨(), ⟨0⟩, .integer 1⟩ := by
    intro member line
    rw [relay]
    split <;> rfl
  have hcounted : coordinator.repliesTo surroundings
      (coordinator.errands [Text.toBytes "DBSIZE"]) () ⟨0⟩ =
        [.integer 1, .integer 1, .integer 1] := by
    simp only [errands, hcount, errandsBy, hmembers, List.map_cons, List.map_nil, repliesTo, hasked]
  have hremoved : coordinator.repliesTo surroundings
      (coordinator.errands [Text.toBytes "DEL", [107]]) () ⟨0⟩ = [.integer 1] := by
    simp only [errands, hremove, errandsBy, groupKeys, List.foldl_cons, List.foldl_nil, addKey,
      List.map_cons, List.map_nil, repliesTo, hasked]
  have hall := merged_reply_covers "a:1" ["b:1", "c:1", "b:1"] 64 surroundings () ⟨0⟩
  obtain ⟨-, hbroadcast, -⟩ := hall (Text.toBytes "DBSIZE") []
  obtain ⟨-, -, hsplit⟩ := hall (Text.toBytes "DEL") [[107]]
  refine ⟨⟨hcount, hremove⟩, ?_, ?_⟩
  · rw [← hcounted]
    refine (hbroadcast .sumIntegers hcount).2.1 (.inr (.inr fun reply hreply => ?_))
    rw [hcounted] at hreply
    simp only [List.mem_cons, List.not_mem_nil, or_false, or_self] at hreply
    rw [hreply]
    rfl
  · rw [← hremoved]
    refine (hsplit hremove (List.cons_ne_nil _ _)).1 fun reply hreply => ?_
    rw [hremoved] at hreply
    rw [List.mem_singleton.1 hreply]
    rfl

/-- The other member of two acknowledges where it is asked for the number of its keys, and is passed
over: the reply is the number of the node's own keys. -/
theorem not_forall_merged_reply_covers :
    ¬∀ (self : String) (peers : List String) (replicas : Nat) (surroundings : Surroundings Unit)
      (session : Session) (name : Bytes) (arguments : List Bytes) (merge : Merge),
      route? (Text.lowercase (Text.ofBytes name)) = some (.broadcast merge) →
        let coordinator := ofPeers self peers replicas
        merge.Covers
          (coordinator.repliesTo surroundings (coordinator.errands (name :: arguments)) () session)
          (coordinator.exec surroundings () session (name :: arguments)).reply := by
  intro hall
  let coordinator := ofPeers "a:1" ["b:1"] 64
  let surroundings : Surroundings Unit :=
    ⟨fun state session _ => ⟨state, session, .integer 3⟩, fun _ state _ _ => (.ok, state)⟩
  have hroute : route? (Text.lowercase (Text.ofBytes (Text.toBytes "DBSIZE"))) =
      some (.broadcast .sumIntegers) := by decide +kernel
  have hmembers : coordinator.members = ["b:1", "a:1"] := by decide
  have hreplies : coordinator.repliesTo surroundings
      (coordinator.errands [Text.toBytes "DBSIZE"]) () ⟨0⟩ = [.ok, .integer 3] := by
    simp only [errands, hroute, errandsBy, hmembers, List.map_cons, List.map_nil]
    rfl
  have hcovers := hall "a:1" ["b:1"] 64 surroundings ⟨0⟩ (Text.toBytes "DBSIZE") [] _ hroute
  dsimp only at hcovers
  rw [reply_broadcast _ _ hroute, hreplies] at hcovers
  have hreply : (Merge.sumIntegers.combine [.ok, .integer 3]).toReply = .integer 3 := rfl
  rw [hreply] at hcovers
  -- a number accounts for numbers only
  generalize hgiven : [Value.ok, .integer 3] = given at hcovers
  cases hcovers with
  | @sum numbers _ _ =>
    cases numbers with
    | nil => cases hgiven
    | cons number rest => cases hgiven

end Coordinator

end RingStore

import RingStore.Proofs.Cluster.Coordinator
import RingStore.Proofs.Ring.Membership
import RingStore.Proofs.Ring.Tags

/-!
# Keys that are kept together

Keys of which the same part is hashed have the same owner on every ring, so that a command on both
of them is never refused because of their owners. The first tag of a key that is not empty tells
that part, unless the key's first opening brace is closed at once: such keys go their own way, even
if they hold the same tag as others.

## Main results

* `Coordinator.tagged_keys_together`: what is hashed of a key, and which keys are kept together.
* `Coordinator.not_forall_tagged_together`: a tag behind an empty one does not keep keys together.
-/

namespace RingStore

/-- Keys have one owner on every ring, wherever a hash places them, exactly if the same part of them
is hashed. -/
theorem forall_owner_eq_iff {left right : Bytes} :
    (∀ (place : Bytes → UInt32) (ring : Ring), ring.owner place left = ring.owner place right) ↔
      hashedPart left = hashedPart right := by
  constructor
  · intro hall
    -- two members, the first of which is given the one hashed part alone
    have hsame := hall (fun bytes => if bytes = hashedPart left then 0 else 1)
      ⟨[⟨0, "first"⟩, ⟨1, "second"⟩]⟩
    refine Decidable.byContradiction fun hne => ?_
    simp only [Ring.owner, if_neg (Ne.symm hne)] at hsame
    exact absurd hsame (by decide)
  · intro h place ring
    rw [Ring.owner, Ring.owner, h]

/-- The part of a key that its first tag tells is not the whole key. -/
theorem FirstTag.ne {key content : Bytes} (h : FirstTag key content) : key ≠ content := by
  obtain ⟨front, ⟨-, back, rfl⟩, -⟩ := h
  intro heq
  have hlength := congrArg List.length heq
  simp only [List.length_append, List.length_cons] at hlength
  omega

/-- The first tag is hashed, unless the key's first opening brace is closed at once. -/
theorem FirstTag.hashedPart_eq_iff {key content : Bytes} (h : FirstTag key content) :
    hashedPart key = content ↔ ¬OpensEmpty key := by
  constructor
  · intro hhashed hopens
    exact h.ne ((hashedPart_of_opensEmpty hopens).symm.trans hhashed)
  · intro hopens
    rw [hashedPart_eq_firstTag hopens, firstTag?_eq_some_iff.2 h]
    rfl

/-- The same part is hashed of keys with equal first tags, unless the first opening brace of one of
them is closed at once and they are different keys. -/
theorem FirstTag.hashedPart_eq_hashedPart_iff {left right content : Bytes}
    (hleft : FirstTag left content) (hright : FirstTag right content) :
    hashedPart left = hashedPart right ↔
      left = right ∨ ¬OpensEmpty left ∧ ¬OpensEmpty right := by
  by_cases hopensLeft : OpensEmpty left <;> by_cases hopensRight : OpensEmpty right
  · rw [hashedPart_of_opensEmpty hopensLeft, hashedPart_of_opensEmpty hopensRight]
    exact (or_iff_left fun h => h.1 hopensLeft).symm
  · rw [hashedPart_of_opensEmpty hopensLeft, hright.hashedPart_eq_iff.2 hopensRight]
    refine iff_of_false hleft.ne ?_
    rintro (rfl | ⟨h, -⟩)
    · exact hopensRight hopensLeft
    · exact h hopensLeft
  · rw [hashedPart_of_opensEmpty hopensRight, hleft.hashedPart_eq_iff.2 hopensLeft]
    refine iff_of_false hright.ne.symm ?_
    rintro (rfl | ⟨-, h⟩)
    · exact hopensLeft hopensRight
    · exact h hopensRight
  · rw [hleft.hashedPart_eq_iff.2 hopensLeft, hright.hashedPart_eq_iff.2 hopensRight]
    exact iff_of_true rfl (.inr ⟨hopensLeft, hopensRight⟩)

namespace Coordinator

/-- A key has a first tag or every tag of it is empty. Without a first tag the whole key is hashed,
and otherwise that tag, except that the whole key is hashed if its first opening brace is closed at
once. With that exception, and no other, keys with equal first tags have one owner on every ring,
whatever surrounds the tags, and a command that needs one owner for both goes to it. -/
theorem tagged_keys_together (left right : Bytes) :
    ((∃ content, FirstTag left content) ∨
        ∀ front content, TagAt left front content → content = []) ∧
      ((∀ front content, TagAt left front content → content = []) → hashedPart left = left) ∧
      (OpensEmpty left → hashedPart left = left) ∧
      ∀ content, FirstTag left content →
        (hashedPart left = content ↔ ¬OpensEmpty left) ∧
        (FirstTag right content →
          ((∀ (place : Bytes → UInt32) (ring : Ring),
              ring.owner place left = ring.owner place right) ↔
            left = right ∨ ¬OpensEmpty left ∧ ¬OpensEmpty right) ∧
          (left = right ∨ ¬OpensEmpty left ∧ ¬OpensEmpty right →
            ∀ {σ : Type} (coordinator : Coordinator) (surroundings : Surroundings σ) (state : σ)
              (session : Session) (name : Bytes),
              route? (Text.lowercase (Text.ofBytes name)) = some .sameOwner →
                coordinator.exec surroundings state session [name, left, right] =
                  coordinator.relay surroundings (coordinator.owner left) state session
                    [name, left, right])) := by
  refine ⟨?_, fun hempty => ?_, hashedPart_of_opensEmpty, fun content hleft =>
    ⟨hleft.hashedPart_eq_iff, fun hright => ⟨?_, fun htogether => ?_⟩⟩⟩
  · cases hfirst : firstTag? left with
    | some content => exact .inl ⟨content, firstTag?_eq_some_iff.1 hfirst⟩
    | none => exact .inr (firstTag?_eq_none_iff.1 hfirst)
  · by_cases hopens : OpensEmpty left
    · exact hashedPart_of_opensEmpty hopens
    · rw [hashedPart_eq_firstTag hopens, firstTag?_eq_none_iff.2 hempty]
      rfl
  · -- rings can tell any two byte strings apart, so that it is all about what is hashed
    rw [forall_owner_eq_iff]
    exact hleft.hashedPart_eq_hashedPart_iff hright
  · intro σ coordinator surroundings state session name hroute
    have hsame := forall_owner_eq_iff.2 ((hleft.hashedPart_eq_hashedPart_iff hright).2 htogether)
    have howners : coordinator.owner left = coordinator.owner right :=
      congrArg (Option.getD · coordinator.self) (hsame ringPosition _)
    exact exec_sameOwner coordinator surroundings state session hroute howners

/-- Two keys are renamed into one another whose equal tags stand between other braces. A third key,
which holds the tag behind an empty one, is hashed as a whole. -/
theorem tagged_keys_together_renamed :
    let left := Text.toBytes "\x7dx\x7buser\x7d:\x7ba\x7d"
    let right := Text.toBytes "\x7buser\x7d\x7b\x7d"
    let third := Text.toBytes "\x7b\x7d\x7buser\x7d"
    let content := Text.toBytes "user"
    let surroundings : Surroundings Unit :=
      ⟨fun state session _ => ⟨state, session, .ok⟩, fun _ state _ _ => (.ok, state)⟩
    (FirstTag left content ∧ FirstTag right content ∧ ¬OpensEmpty left ∧ ¬OpensEmpty right) ∧
      hashedPart left = content ∧ (OpensEmpty third ∧ hashedPart third = third) ∧
      route? (Text.lowercase (Text.ofBytes (Text.toBytes "RENAME"))) = some .sameOwner ∧
      ((ofPeers "a:1" ["b:1"] 64).exec surroundings () ⟨0⟩
        [Text.toBytes "RENAME", left, right]).reply = .ok := by
  intro left right third content surroundings
  have hleft : FirstTag left content := firstTag?_eq_some_iff.1 (by decide +kernel)
  have hright : FirstTag right content := firstTag?_eq_some_iff.1 (by decide +kernel)
  have hopensLeft : ¬OpensEmpty left := by decide +kernel
  have hopensRight : ¬OpensEmpty right := by decide +kernel
  have hopensThird : OpensEmpty third := by decide +kernel
  have hroute : route? (Text.lowercase (Text.ofBytes (Text.toBytes "RENAME"))) =
      some .sameOwner := by decide +kernel
  obtain ⟨-, -, -, htagged⟩ := tagged_keys_together left right
  obtain ⟨hhashed, htogether⟩ := htagged content hleft
  obtain ⟨-, hexec⟩ := htogether hright
  obtain ⟨-, -, hwhole, -⟩ := tagged_keys_together third right
  refine ⟨⟨hleft, hright, hopensLeft, hopensRight⟩, hhashed.2 hopensLeft,
    ⟨hopensThird, hwhole hopensThird⟩, hroute, ?_⟩
  rw [hexec (.inr ⟨hopensLeft, hopensRight⟩) (ofPeers "a:1" ["b:1"] 64) surroundings () ⟨0⟩ _
    hroute, relay]
  split <;> rfl

/-- A key whose tag stands behind an empty one has another owner than the key that is the tag alone,
so that tags do not always keep keys together. -/
theorem not_forall_tagged_together :
    ¬∀ left right content, FirstTag left content → FirstTag right content →
      ∀ (self : String) (peers : List String) (replicas : Nat),
        (ofPeers self peers replicas).owner left = (ofPeers self peers replicas).owner right := by
  intro hall
  have hleft : FirstTag (Text.toBytes "\x7b\x7d\x7buser\x7d") (Text.toBytes "user") :=
    firstTag?_eq_some_iff.1 (by decide +kernel)
  have hright : FirstTag (Text.toBytes "\x7buser\x7d") (Text.toBytes "user") :=
    firstTag?_eq_some_iff.1 (by decide +kernel)
  -- all of the one key is hashed, which leads to one member, and the tag of the other one leads
  -- round the ring to the other member
  have howner : ∀ key member,
      (Ring.ofMembers ringPosition ["b:1", "a:1"] 1).owner ringPosition key = some member →
        (ofPeers "a:1" ["b:1"] 1).owner key = member :=
    fun _ _ h => congrArg (Option.getD · "a:1") h
  have hwhole := howner (Text.toBytes "\x7b\x7d\x7buser\x7d") "a:1" <|
    Ring.owner_of_precedes ⟨4167352199, "a:1"⟩ (by decide +kernel) (by decide +kernel)
  have htag := howner (Text.toBytes "\x7buser\x7d") "b:1" <|
    Ring.owner_of_precedes ⟨2216299535, "b:1"⟩ (by decide +kernel) (by decide +kernel)
  have hsame := hall _ _ _ hleft hright "a:1" ["b:1"] 1
  rw [hwhole, htag] at hsame
  exact absurd hsame (by decide)

end Coordinator

end RingStore

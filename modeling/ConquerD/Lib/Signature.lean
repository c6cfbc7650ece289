import Mathlib.Data.Set.Insert

/-!
# Signatures in the symbolic model

A party is the set of public keys whose private half it holds. It can always
send some signature, it can sign for a key it holds, and a signature it sends
on a message of the verifier's choosing verifies under a key only if it holds
that key.
-/

namespace ConquerD.Lib.Signature

/-- An unforgeable signature scheme over `Key`, for messages the verifier
chooses (a fresh handshake transcript). -/
structure SignatureScheme (Key Message Sig : Type) where
  verify : Key → Message → Sig → Bool
  /-- `canSend held m sig`: a party that holds the keys `held` can present
  `sig` as its signature on `m`. -/
  canSend : Set Key → Message → Sig → Prop
  exists_canSend : ∀ held m, ∃ sig, canSend held m sig
  exists_verify : ∀ {held k} m, k ∈ held → ∃ sig, canSend held m sig ∧ verify k m sig = true
  unforgeable : ∀ {held k m sig}, canSend held m sig → verify k m sig = true → k ∈ held

/-- A scheme in which a signature is the name of the signing key, and a party
can only write the names of its own keys. -/
def SignatureScheme.symbolic (Key Message : Type) [DecidableEq Key] :
    SignatureScheme Key Message (Option Key) where
  verify k _ sig := sig == some k
  canSend held _ sig := ∀ k, sig = some k → k ∈ held
  exists_canSend _ _ := ⟨none, by simp⟩
  exists_verify {_ k} _ hk := ⟨some k, by simpa using hk, by simp⟩
  unforgeable {_ k _ _} hs hv := hs k (by simpa using hv)

end ConquerD.Lib.Signature

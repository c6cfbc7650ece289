import Mathlib.Algebra.Group.Nat.Defs
import Mathlib.Data.List.GetD
import ConquerD.Transport.Handshake

/-!
# Client: who a QUIC connection belongs to

The client reads the common name by the same byte search, with a full DER
length, and names the peer by the SHA-256 of the key. Its two verifiers check
the handshake signature against the certificate's own key. The hash and the
reading of that key from a certificate are the libraries'.
-/

namespace ConquerD.Client

open Lib.Encoding Lib.Signature ConquerD.Transport

/-- A DER length: the value and the number of bytes it took. The sum wraps at
the machine word. -/
def parseDerLength (data : Bytes) : Option (Nat × Nat) :=
  match data with
  | [] => none
  | first :: rest =>
    if first < 0x80 then some (first.toNat, 1)
    else
      let numBytes := (first &&& 0x7F).toNat
      if numBytes = 0 ∨ data.length < 1 + numBytes then none
      else
        let len := (rest.take numBytes).foldl (fun len b => (len * 256 + b.toNat) % 2 ^ 64) 0
        some (len, 1 + numBytes)

/-- The common name of a certificate. A value length near the word size makes
the source's end position overflow, where it stops without a name; here the
end position is past the certificate, with the same result. -/
def parseCnFromDer (der : Bytes) : Option String :=
  match windowPosition cnOid der with
  | none => none
  | some pos =>
    let afterOid := pos + cnOid.length
    if afterOid ≥ der.length then none
    else
      let tag := der.getD afterOid 0
      if tag ≠ 0x0C ∧ tag ≠ 0x13 then none
      else
        let lenPos := afterOid + 1
        if lenPos ≥ der.length then none
        else
          match parseDerLength (der.drop lenPos) with
          | none => none
          | some (valueLen, consumed) =>
            let valueStart := lenPos + consumed
            let valueEnd := valueStart + valueLen
            if valueEnd > der.length then none
            else fromUtf8 ((der.drop valueStart).take valueLen)

def cnFromCertDer (certDer : Bytes) : Option String :=
  parseCnFromDer certDer

section Identity

variable (sha256 : Bytes → Bytes)

def peerIdFromPubBytes (pubBytes : Bytes) : String :=
  hexEncode (sha256 pubBytes)

/-- The peer id of a connection, from the certificate chain it presented. -/
def certPeerId (certs : List Bytes) : Option String :=
  match certs with
  | [] => none
  | cert :: _ =>
    match cnFromCertDer cert with
    | none => none
    | some cn => (hexDecode (utf8Bytes cn)).map (peerIdFromPubBytes sha256)

end Identity

/-! ## What the byte search reads -/

/-- A length field `parseDerLength` reads whole. -/
def DerLength (len : Bytes) (n : Nat) : Prop :=
  parseDerLength len = some (n, len.length)

/-- The certificate bytes the client reads a key from. -/
def NamesPeer (der key : Bytes) : Prop :=
  NamesKey DerLength der key

theorem parseDerLength_append {len rest : Bytes} {n : Nat} (h : DerLength len n) :
    parseDerLength (len ++ rest) = some (n, len.length) := by
  unfold DerLength at h
  cases len with
  | nil => simp [parseDerLength] at h
  | cons first digits =>
    simp only [List.cons_append, parseDerLength] at h ⊢
    by_cases hshort : first < 0x80
    · rw [if_pos hshort] at h ⊢
      exact h
    · rw [if_neg hshort] at h ⊢
      split at h
      · cases h
      · rename_i hlong
        simp only [Option.some.injEq, Prod.mk.injEq, List.length_cons] at h
        have hdigits : digits.length = (first &&& 0x7F).toNat := by omega
        have hlong' : ¬ ((first &&& 0x7F).toNat = 0 ∨
            (first :: (digits ++ rest)).length < 1 + (first &&& 0x7F).toNat) := by
          simp only [List.length_cons, List.length_append] at hlong ⊢
          omega
        rw [if_neg hlong', ← hdigits, List.take_left']
        · rw [← hdigits, List.take_length] at h
          exact congrArg some (Prod.ext h.1 h.2)
        · rfl

theorem parseDerLength_split {data : Bytes} {n c : Nat} (h : parseDerLength data = some (n, c)) :
    ∃ len rest, data = len ++ rest ∧ len.length = c ∧ DerLength len n := by
  cases data with
  | nil => simp [parseDerLength] at h
  | cons first digits =>
    simp only [parseDerLength] at h
    by_cases hshort : first < 0x80
    · rw [if_pos hshort] at h
      cases h
      exact ⟨[first], digits, rfl, rfl, by simp [DerLength, parseDerLength, hshort]⟩
    · rw [if_neg hshort] at h
      split at h
      · cases h
      · rename_i hlong
        cases h
        simp only [List.length_cons, not_or, Nat.not_lt] at hlong
        have hle : (first &&& 0x7F).toNat ≤ digits.length := by omega
        refine ⟨first :: digits.take (first &&& 0x7F).toNat, digits.drop (first &&& 0x7F).toNat,
          by simp, ?_, ?_⟩
        · rw [List.length_cons, List.length_take, Nat.min_eq_left hle, Nat.add_comm]
        · simp only [DerLength, parseDerLength, if_neg hshort, List.length_cons, List.length_take,
            Nat.min_eq_left hle, List.take_take, Nat.min_self]
          rw [if_neg (by omega)]
          simp [Nat.add_comm]

/-- What the reader does with the bytes after the OID. -/
def cnAfterOid : Bytes → Option String
  | [] => none
  | tag :: body =>
    if tag ≠ 0x0C ∧ tag ≠ 0x13 then none
    else
      match parseDerLength body with
      | none => none
      | some (valueLen, consumed) =>
        if consumed + valueLen > body.length then none
        else fromUtf8 ((body.drop consumed).take valueLen)

theorem parseCnFromDer_eq {pre tail : Bytes} (h : FirstWindow cnOid pre tail) :
    parseCnFromDer (pre ++ cnOid ++ tail) = cnAfterOid tail := by
  have hpos : windowPosition cnOid (pre ++ cnOid ++ tail) = some pre.length :=
    (windowPosition_eq_some_iff (by decide)).mpr ⟨pre, tail, rfl, rfl, h⟩
  have hlen : (pre ++ cnOid).length = pre.length + cnOid.length := List.length_append
  have hdrop (k : Nat) : (pre ++ cnOid ++ tail).drop (pre.length + cnOid.length + k)
      = tail.drop k := by
    rw [← hlen, List.drop_length_add_append]
  unfold parseCnFromDer
  simp only [hpos]
  cases tail with
  | nil =>
    rw [if_pos (by simp)]
    rfl
  | cons tag body =>
    have hget : (pre ++ cnOid ++ tag :: body).getD (pre.length + cnOid.length) 0 = tag := by
      rw [← hlen, List.getD_append_right _ _ _ _ (by omega)]
      simp
    rw [if_neg (by simp), hget, cnAfterOid]
    by_cases htag : tag ≠ 0x0C ∧ tag ≠ 0x13
    · rw [if_pos htag, if_pos htag]
    · rw [if_neg htag, if_neg htag, hdrop]
      simp only [List.drop_succ_cons, List.drop_zero]
      cases body with
      | nil =>
        rw [if_pos (by simp; omega)]
        rfl
      | cons b body =>
        rw [if_neg (by simp; omega)]
        cases parseDerLength (b :: body) with
        | none => rfl
        | some vc =>
          obtain ⟨valueLen, consumed⟩ := vc
          simp only
          rw [Nat.add_assoc _ 1 consumed, hdrop, Nat.add_comm 1 consumed, List.drop_succ_cons]
          congr 1
          simp only [List.length_append, List.length_cons, eq_iff_iff]
          omega

theorem certPeerId_eq_some_iff {sha256 : Bytes → Bytes} {cert : Bytes} {rest : List Bytes}
    {p : String} :
    certPeerId sha256 (cert :: rest) = some p ↔
      ∃ key, NamesPeer cert key ∧ p = peerIdFromPubBytes sha256 key := by
  constructor
  · intro h
    simp only [certPeerId, cnFromCertDer] at h
    cases hp : windowPosition cnOid cert with
    | none => simp [parseCnFromDer, hp] at h
    | some pos =>
      obtain ⟨pre, tail, rfl, -, hw⟩ := (windowPosition_eq_some_iff (by decide)).mp hp
      rw [parseCnFromDer_eq hw] at h
      cases tail with
      | nil => simp [cnAfterOid] at h
      | cons tag body =>
        rw [cnAfterOid] at h
        by_cases htag : tag ≠ 0x0C ∧ tag ≠ 0x13
        · rw [if_pos htag] at h
          cases h
        · rw [if_neg htag] at h
          cases hlen : parseDerLength body with
          | none => simp [hlen] at h
          | some vc =>
            obtain ⟨valueLen, consumed⟩ := vc
            obtain ⟨len, value, rfl, rfl, hder⟩ := parseDerLength_split hlen
            simp only [hlen, List.drop_left] at h
            split at h
            · cases h
            · rename_i cn hcn
              split at hcn
              · cases hcn
              · rename_i hfit
                rw [utf8Bytes_of_fromUtf8 hcn, Option.map_eq_some_iff] at h
                obtain ⟨key, hkey, rfl⟩ := h
                have hsplit : tag :: (len ++ value)
                    = tag :: len ++ value.take valueLen ++ value.drop valueLen := by simp
                rw [hsplit] at hw ⊢
                refine ⟨key, ⟨pre, tag, len, _, _, rfl, hw, ?_, ?_, hkey⟩, rfl⟩
                · tauto
                · simp only [List.length_append] at hfit
                  rw [List.length_take, Nat.min_eq_left (by omega)]
                  exact hder
  · rintro ⟨key, ⟨pre, tag, len, cn, tail, rfl, hw, htag, hder, hkey⟩, rfl⟩
    obtain ⟨s, hs, hbytes⟩ := fromUtf8_of_ascii (hexDecode_ascii hkey)
    have hcn : cnFromCertDer (pre ++ cnOid ++ (tag :: len ++ cn ++ tail)) = some s := by
      have htag' : ¬ (tag ≠ 0x0C ∧ tag ≠ 0x13) := by tauto
      unfold cnFromCertDer
      rw [parseCnFromDer_eq hw]
      simp only [List.cons_append, List.append_assoc, cnAfterOid]
      rw [if_neg htag', parseDerLength_append hder]
      simp only
      rw [if_neg (by simp only [List.length_append]; omega)]
      simpa using hs
    simp only [certPeerId, hcn, hbytes, hkey, Option.map_some]

section Verifiers

variable {Transcript Sig : Type} (scheme : SignatureScheme PublicKey Transcript Sig)
  (publicKeyOf : Bytes → Option PublicKey)

/-- The TLS library's check of a handshake signature: against the key of the
certificate, when the certificate parses. -/
def verifyTls13Signature (message : Transcript) (cert : Bytes) (dss : Sig) : Bool :=
  match publicKeyOf cert with
  | none => false
  | some key => scheme.verify key message dss

/-- The verifier for the certificates of servers the client dials. -/
def acceptAnyCert : CertVerifier Transcript Sig where
  mandatory := true
  verifyCert _ _ := true
  verifyTls13Signature := verifyTls13Signature scheme publicKeyOf

/-- The verifier for the certificates of peers that dial the client; a peer may
come without one. -/
def acceptAnyClient : CertVerifier Transcript Sig where
  mandatory := false
  verifyCert _ _ := true
  verifyTls13Signature := verifyTls13Signature scheme publicKeyOf

end Verifiers

end ConquerD.Client

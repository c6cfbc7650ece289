import Mathlib.Data.List.GetD
import ConquerD.Transport.Handshake

/-!
# Supernode: who a QUIC connection belongs to

The relay and the cluster link read a connection's identity out of its client
certificate: the first common name found by a byte search is taken as the
hexadecimal form of an Ed25519 key, and the unpadded base64url form of that
key is the peer id. `acceptAllClientCerts` is the verifier both listeners
install.
-/

namespace ConquerD.Supernode

open Lib.Encoding ConquerD.Transport

inductive PeerIdError where
  | noPeerCertificate
  | cnNotFound
  | invalidCnUtf8
  | invalidHexCn (cn : String)
  deriving DecidableEq, Repr

def findSubsequence (haystack needle : Bytes) : Option Nat :=
  windowPosition needle haystack

/-- The common name of a certificate. The length of the name is one byte,
whatever its top bit says. -/
def x509ParserLite (der : Bytes) : Except PeerIdError String :=
  match findSubsequence der cnOid with
  | none => .error .cnNotFound
  | some pos =>
    let afterOid := pos + cnOid.length
    if afterOid + 2 ≤ der.length then
      let tag := der.getD afterOid 0
      let len := (der.getD (afterOid + 1) 0).toNat
      if (tag = 0x0C ∨ tag = 0x13) ∧ afterOid + 2 + len ≤ der.length then
        match fromUtf8 ((der.drop (afterOid + 2)).take len) with
        | some cn => .ok cn
        | none => .error .invalidCnUtf8
      else .error .cnNotFound
    else .error .cnNotFound

/-- The peer id of a connection, from the certificate chain it presented. -/
def extractPeerId (certs : List Bytes) : Except PeerIdError String :=
  match certs with
  | [] => .error .noPeerCertificate
  | cert :: _ =>
    match x509ParserLite cert with
    | .error e => .error e
    | .ok cnHex =>
      match hexDecode (utf8Bytes cnHex) with
      | some pubBytes => .ok (b64UrlEncode pubBytes)
      | none => .error (.invalidHexCn cnHex)

/-- The client-certificate verifier of the relay and of the cluster link: every
certificate and every handshake signature is accepted unseen. -/
def acceptAllClientCerts (Transcript Sig : Type) : CertVerifier Transcript Sig where
  mandatory := true
  verifyCert _ _ := true
  verifyTls13Signature _ _ _ := true

/-! ## What the byte search reads -/

/-- The one-byte length field of `x509ParserLite`. -/
def OneByteLength (len : Bytes) (n : Nat) : Prop :=
  ∃ b : UInt8, len = [b] ∧ b.toNat = n

/-- The certificate bytes `x509ParserLite` and `extractPeerId` read a key from. -/
def NamesPeer (der key : Bytes) : Prop :=
  NamesKey OneByteLength der key

/-- What the reader does with the bytes after the OID. -/
def cnAfterOid : Bytes → Except PeerIdError String
  | tag :: len :: body =>
    if (tag = 0x0C ∨ tag = 0x13) ∧ len.toNat ≤ body.length then
      match fromUtf8 (body.take len.toNat) with
      | some cn => .ok cn
      | none => .error .invalidCnUtf8
    else .error .cnNotFound
  | _ => .error .cnNotFound

theorem x509ParserLite_eq {pre tail : Bytes} (h : FirstWindow cnOid pre tail) :
    x509ParserLite (pre ++ cnOid ++ tail) = cnAfterOid tail := by
  have hpos : findSubsequence (pre ++ cnOid ++ tail) cnOid = some pre.length :=
    (windowPosition_eq_some_iff (by decide)).mpr ⟨pre, tail, rfl, rfl, h⟩
  have hlen : (pre ++ cnOid).length = pre.length + cnOid.length := List.length_append
  have hdrop (k : Nat) : (pre ++ cnOid ++ tail).drop (pre.length + cnOid.length + k)
      = tail.drop k := by
    rw [← hlen, List.drop_length_add_append]
  have hget (k : Nat) : (pre ++ cnOid ++ tail).getD (pre.length + cnOid.length + k) 0
      = tail.getD k 0 := by
    rw [← hlen, List.getD_append_right _ _ _ _ (by omega)]
    congr 1
    omega
  unfold x509ParserLite
  simp only [hpos]
  rcases tail with _ | ⟨tag, _ | ⟨len, body⟩⟩
  · rw [if_neg (by simp)]
    rfl
  · rw [if_neg (by simp; omega)]
    rfl
  · -- a tag and a length octet are there
    have h0 := hget 0
    have h1 := hget 1
    rw [Nat.add_zero] at h0
    rw [if_pos (by simp; omega), h0, h1, hdrop, cnAfterOid]
    simp only [List.getD_cons_zero, List.getD_cons_succ, List.drop_succ_cons, List.drop_zero]
    congr 1
    simp only [List.length_append, List.length_cons, eq_iff_iff]
    exact and_congr_right fun _ => by omega

theorem x509ParserLite_ok_iff {der : Bytes} {cn : String} :
    x509ParserLite der = .ok cn ↔
      ∃ pre tag len body, der = pre ++ cnOid ++ (tag :: len :: body) ∧
        FirstWindow cnOid pre (tag :: len :: body) ∧ (tag = 0x0C ∨ tag = 0x13) ∧
        len.toNat ≤ body.length ∧ fromUtf8 (body.take len.toNat) = some cn := by
  constructor
  · intro h
    cases hp : findSubsequence der cnOid with
    | none => simp [x509ParserLite, hp] at h
    | some pos =>
      obtain ⟨pre, tail, rfl, -, hw⟩ := (windowPosition_eq_some_iff (by decide)).mp hp
      rw [x509ParserLite_eq hw] at h
      rcases tail with _ | ⟨tag, _ | ⟨len, body⟩⟩
      · cases h
      · cases h
      · rw [cnAfterOid] at h
        split at h
        · rename_i hc
          split at h
          · rename_i hcn
            cases h
            exact ⟨pre, tag, len, body, rfl, hw, hc.1, hc.2, hcn⟩
          · cases h
        · cases h
  · rintro ⟨pre, tag, len, body, rfl, hw, htag, hlen, hcn⟩
    rw [x509ParserLite_eq hw]
    simp only [cnAfterOid, htag, hlen, hcn, and_self, if_true]

/-- The identity `extractPeerId` assigns is the key the certificate names. -/
theorem extractPeerId_ok_iff {cert : Bytes} {rest : List Bytes} {p : String} :
    extractPeerId (cert :: rest) = .ok p ↔ ∃ key, NamesPeer cert key ∧ p = b64UrlEncode key := by
  constructor
  · intro h
    unfold extractPeerId at h
    simp only at h
    split at h
    · cases h
    · rename_i cn hcn
      split at h
      · rename_i key hkey
        cases h
        obtain ⟨pre, tag, len, body, rfl, hw, htag, hlen, hutf⟩ := x509ParserLite_ok_iff.mp hcn
        rw [utf8Bytes_of_fromUtf8 hutf] at hkey
        have hsplit : tag :: len :: body
            = tag :: [len] ++ body.take len.toNat ++ body.drop len.toNat := by simp
        rw [hsplit] at hw ⊢
        exact ⟨key, ⟨pre, tag, [len], _, _, rfl, hw, htag,
          ⟨len, rfl, by simp [hlen]⟩, hkey⟩, rfl⟩
      · cases h
  · rintro ⟨key, ⟨pre, tag, _, cn, tail, rfl, hw, htag, ⟨len, rfl, hlen⟩, hkey⟩, rfl⟩
    obtain ⟨s, hs, hbytes⟩ := fromUtf8_of_ascii (hexDecode_ascii hkey)
    have hcn : x509ParserLite (pre ++ cnOid ++ (tag :: [len] ++ cn ++ tail)) = .ok s := by
      refine x509ParserLite_ok_iff.mpr ⟨pre, tag, len, cn ++ tail, rfl, hw, htag, ?_, ?_⟩
      · simp [hlen]
      · simpa [hlen] using hs
    unfold extractPeerId
    simp only [hcn, hbytes, hkey]

end ConquerD.Supernode

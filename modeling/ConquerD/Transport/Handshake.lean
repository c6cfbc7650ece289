import ConquerD.Lib.Encoding
import ConquerD.Lib.Signature

/-!
# The TLS 1.3 handshake as both programs configure it

Both programs leave the certificate decision to verifier hooks of their own.
A hook object is a `CertVerifier`; `CertVerifier.accepts` is what the TLS
library does with it: an absent certificate passes only when none is
mandatory, and a present one passes when `verifyCert` and the hook for the
TLS 1.3 handshake signature both do. QUIC is TLS 1.3 only, so the TLS 1.2
hooks are left out.
-/

namespace ConquerD.Transport

open Lib.Encoding Lib.Signature

/-- The key a certificate carries: the certificates of both programs hold an
Ed25519 key, a remote party may present any other supported algorithm. -/
inductive PublicKey where
  | ed25519 (bytes : Bytes)
  | other (spki : Bytes)
  deriving DecidableEq, Repr

structure CertVerifier (Transcript Sig : Type) where
  mandatory : Bool
  verifyCert : Bytes → List Bytes → Bool
  verifyTls13Signature : Transcript → Bytes → Sig → Bool

/-- What the remote side of a connection presented: its certificate chain (end
entity first) and its signature over the handshake transcript. -/
structure Presented (Transcript Sig : Type) where
  certs : List Bytes
  transcript : Transcript
  signature : Sig

variable {Transcript Sig : Type}

/-- Whether the handshake completes under the verifier's hooks. -/
def CertVerifier.accepts (v : CertVerifier Transcript Sig) (p : Presented Transcript Sig) : Bool :=
  match p.certs with
  | [] => !v.mandatory
  | cert :: rest => v.verifyCert cert rest && v.verifyTls13Signature p.transcript cert p.signature

/-- `Completes scheme v held p`: a party holding `held` can present `p`, and
the handshake completes. -/
def Completes (scheme : SignatureScheme PublicKey Transcript Sig)
    (v : CertVerifier Transcript Sig) (held : Set PublicKey) (p : Presented Transcript Sig) : Prop :=
  scheme.canSend held p.transcript p.signature ∧ v.accepts p = true

/-! ## The name in a certificate -/

/-- OID 2.5.4.3 (common name). -/
def cnOid : Bytes := [0x55, 0x04, 0x03]

/-- `NamesKey header der key`: the first common-name OID among the bytes of
`der` is followed by a UTF8String or PrintableString tag, a length field that
`header` reads as the length of the text, and the text, which is the
hexadecimal form of `key`. -/
def NamesKey (header : Bytes → Nat → Prop) (der key : Bytes) : Prop :=
  ∃ pre tag len cn rest, der = pre ++ cnOid ++ (tag :: len ++ cn ++ rest) ∧
    FirstWindow cnOid pre (tag :: len ++ cn ++ rest) ∧
    (tag = 0x0C ∨ tag = 0x13) ∧ header len cn.length ∧ hexDecode cn = some key

end ConquerD.Transport

import ConquerD.Client.Tls
import ConquerD.Supernode.ClusterLink
import ConquerD.Supernode.Relay

/-!
# Does a connection's identity mean possession of its key?

A remote party that completes a handshake is assigned an identity from the
name in its certificate, and everything the supernode grants that identity
(relay grant, index, room, replication link) then belongs to the connection.
The question is whether the party holds the identity's private key.

On the supernode nothing is checked, so the answer is yes only for
certificates that name no key at all. On the client the handshake signature is
checked against the key inside the certificate, so the answer is yes exactly
when that key and the named key have the same peer id.
-/

namespace ConquerD.Transport

open Lib.Encoding Lib.Signature Wire

/-- The party holds the private key of the base64url identity `p`. -/
def HoldsKeyOf (held : Set PublicKey) (p : String) : Prop :=
  ∃ key, p = b64UrlEncode key ∧ PublicKey.ed25519 key ∈ held

/-- The party holds the private key of the hashed identity `p`. -/
def HoldsKeyOfHash (sha256 : Bytes → Bytes) (held : Set PublicKey) (p : String) : Prop :=
  ∃ key, p = Client.peerIdFromPubBytes sha256 key ∧ PublicKey.ed25519 key ∈ held

section Statements

variable {Transcript Sig : Type} (scheme : SignatureScheme PublicKey Transcript Sig)

/-- Whoever completes a handshake with `cert` against the supernode holds the
key of the identity it is assigned, of the relay identity it is registered
under, and of the cluster member whose link it becomes. -/
def SupernodeIdentityMeansKey (cert : Bytes) : Prop :=
  ∀ held (pr : Presented Transcript Sig) rest, pr.certs = cert :: rest →
    Completes scheme (Supernode.acceptAllClientCerts Transcript Sig) held pr →
    (∀ p, Supernode.extractPeerId pr.certs = .ok p → HoldsKeyOf held p) ∧
    (∀ (st st' : Supernode.RelayState) connection order p index portalOnly,
      st.handleConnection pr.certs connection order = (st', .registered p index portalOnly) →
      HoldsKeyOf held p) ∧
    (∀ (st st' : Supernode.LinkState) membership connection member,
      st.handleIncoming membership pr.certs connection = (st', .up member) →
      HoldsKeyOf held member)

/-- Whoever completes a handshake with `cert` against the client, dialled or
dialling, holds the key of the identity it is assigned. -/
def ClientIdentityMeansKey (sha256 : Bytes → Bytes) (publicKeyOf : Bytes → Option PublicKey)
    (cert : Bytes) : Prop :=
  ∀ held (pr : Presented Transcript Sig) rest, pr.certs = cert :: rest →
    (Completes scheme (Client.acceptAnyCert scheme publicKeyOf) held pr ∨
      Completes scheme (Client.acceptAnyClient scheme publicKeyOf) held pr) →
    ∀ p, Client.certPeerId sha256 pr.certs = some p → HoldsKeyOfHash sha256 held p

end Statements

/-! ## The supernode -/

/-- A relay registration is made under the identity read from the certificate. -/
theorem extractPeerId_of_registered {st st' : Supernode.RelayState} {certs : List Bytes}
    {connection : Nat} {order : List String} {p : String} {index : Nat} {portalOnly : Bool}
    (h : st.handleConnection certs connection order = (st', .registered p index portalOnly)) :
    Supernode.extractPeerId certs = .ok p := by
  unfold Supernode.RelayState.handleConnection at h
  split at h
  · simp at h
  · rename_i peerId hid
    simp only at h
    split at h
    · simp at h
    · split at h
      · simp at h
      · split at h
        · simp at h
        · simp only [Prod.mk.injEq, Supernode.ConnectionOutcome.registered.injEq] at h
          rw [hid, h.2.1]

/-- A cluster link goes up under the identity read from the certificate. -/
theorem extractPeerId_of_up {st st' : Supernode.LinkState}
    {membership : Supernode.ClusterMembership}
    {certs : List Bytes} {connection : Nat} {member : String}
    (h : st.handleIncoming membership certs connection = (st', .up member)) :
    ∃ p, Supernode.extractPeerId certs = .ok p ∧ member = bare p := by
  unfold Supernode.LinkState.handleIncoming at h
  split at h
  · simp at h
  · rename_i peerId hid
    simp only at h
    split at h
    · simp only [Prod.mk.injEq, Supernode.IncomingLink.up.injEq] at h
      exact ⟨peerId, hid, h.2.symm⟩
    · simp at h

section Main

variable {Transcript Sig : Type} [Inhabited Transcript]
  (scheme : SignatureScheme PublicKey Transcript Sig)

theorem supernodeIdentityMeansKey_iff (cert : Bytes) :
    SupernodeIdentityMeansKey scheme cert ↔ ∀ key, ¬ Supernode.NamesPeer cert key := by
  constructor
  · intro h key hkey
    -- a party that holds no key at all
    obtain ⟨sig, hsig⟩ := scheme.exists_canSend ∅ default
    have hid : Supernode.extractPeerId [cert] = .ok (b64UrlEncode key) :=
      Supernode.extractPeerId_ok_iff.mpr ⟨key, hkey, rfl⟩
    have := (h ∅ ⟨[cert], default, sig⟩ [] rfl ⟨hsig, rfl⟩).1 _ hid
    obtain ⟨_, -, hmem⟩ := this
    exact hmem
  · intro h held pr rest hcerts _
    have hno : ∀ p, Supernode.extractPeerId pr.certs ≠ .ok p := by
      intro p hp
      rw [hcerts] at hp
      obtain ⟨key, hkey, -⟩ := Supernode.extractPeerId_ok_iff.mp hp
      exact h key hkey
    refine ⟨fun p hp => absurd hp (hno p), ?_, ?_⟩
    · intro st st' connection order p index portalOnly hreg
      exact absurd (extractPeerId_of_registered hreg) (hno p)
    · intro st st' membership connection member hup
      obtain ⟨p, hp, -⟩ := extractPeerId_of_up hup
      exact absurd hp (hno p)

/-! ## The client -/

variable (sha256 : Bytes → Bytes) (publicKeyOf : Bytes → Option PublicKey)

omit [Inhabited Transcript] in
theorem holds_own_key {held : Set PublicKey} {pr : Presented Transcript Sig} {cert : Bytes}
    {rest : List Bytes} (hcerts : pr.certs = cert :: rest)
    (h : Completes scheme (Client.acceptAnyCert scheme publicKeyOf) held pr ∨
      Completes scheme (Client.acceptAnyClient scheme publicKeyOf) held pr) :
    ∃ own, publicKeyOf cert = some own ∧ own ∈ held := by
  have hsig : scheme.canSend held pr.transcript pr.signature ∧
      Client.verifyTls13Signature scheme publicKeyOf pr.transcript cert pr.signature = true := by
    rcases h with ⟨hs, hv⟩ | ⟨hs, hv⟩
    · exact ⟨hs, by simpa [CertVerifier.accepts, hcerts, Client.acceptAnyCert] using hv⟩
    · exact ⟨hs, by simpa [CertVerifier.accepts, hcerts, Client.acceptAnyClient] using hv⟩
  obtain ⟨hs, hv⟩ := hsig
  unfold Client.verifyTls13Signature at hv
  cases hkey : publicKeyOf cert with
  | none => simp [hkey] at hv
  | some own =>
    simp only [hkey] at hv
    exact ⟨own, rfl, scheme.unforgeable hs hv⟩

theorem clientIdentityMeansKey_iff (cert : Bytes) :
    ClientIdentityMeansKey scheme sha256 publicKeyOf cert ↔
      ∀ key own, Client.NamesPeer cert key → publicKeyOf cert = some own →
        ∃ k, own = .ed25519 k ∧
          Client.peerIdFromPubBytes sha256 k = Client.peerIdFromPubBytes sha256 key := by
  constructor
  · intro h key own hkey hown
    -- a party that holds the certificate's own key and no other
    obtain ⟨sig, hsig, hver⟩ := @scheme.exists_verify {own} _ default (Set.mem_singleton own)
    have hdone : Completes scheme (Client.acceptAnyCert scheme publicKeyOf) {own}
        ⟨[cert], default, sig⟩ := by
      refine ⟨hsig, ?_⟩
      simp [CertVerifier.accepts, Client.acceptAnyCert, Client.verifyTls13Signature, hown, hver]
    have hid : Client.certPeerId sha256 [cert] = some (Client.peerIdFromPubBytes sha256 key) :=
      Client.certPeerId_eq_some_iff.mpr ⟨key, hkey, rfl⟩
    obtain ⟨k, hk, hmem⟩ := h {own} ⟨[cert], default, sig⟩ [] rfl (.inl hdone) _ hid
    exact ⟨k, (Set.mem_singleton_iff.mp hmem).symm, hk.symm⟩
  · intro h held pr rest hcerts hdone p hp
    rw [hcerts] at hp
    obtain ⟨key, hkey, rfl⟩ := Client.certPeerId_eq_some_iff.mp hp
    obtain ⟨own, hown, hmem⟩ := holds_own_key scheme publicKeyOf hcerts hdone
    obtain ⟨k, rfl, hk⟩ := h key own hkey hown
    exact ⟨k, hk.symm, hmem⟩

/-- When an identity means possession of its key: on the supernode, for
certificates that name no key; on the client, for certificates whose own key
has the peer id of the named one. -/
theorem identity_means_key_iff (cert : Bytes) :
    (SupernodeIdentityMeansKey scheme cert ↔ ∀ key, ¬ Supernode.NamesPeer cert key) ∧
    (ClientIdentityMeansKey scheme sha256 publicKeyOf cert ↔
      ∀ key own, Client.NamesPeer cert key → publicKeyOf cert = some own →
        ∃ k, own = .ed25519 k ∧
          Client.peerIdFromPubBytes sha256 k = Client.peerIdFromPubBytes sha256 key) :=
  ⟨supernodeIdentityMeansKey_iff scheme cert,
    clientIdentityMeansKey_iff scheme sha256 publicKeyOf cert⟩

end Main

/-! ## A spoofed certificate -/

def victimKey : Bytes := List.replicate 32 0x11

/-- A certificate body whose common name is the victim's key in hexadecimal. -/
def spoofedCert : Bytes :=
  cnOid ++ (0x0C :: [64] ++ List.replicate 64 0x31 ++ [])

/-- A relay that has granted the victim access and holds it in a room. -/
def relayOfVictim : Supernode.RelayState :=
  (Supernode.RelayState.new.allowPeer (b64UrlEncode victimKey)).joinRoom
    (b64UrlEncode victimKey) "lounge"

theorem spoofedCert_namesPeer : Supernode.NamesPeer spoofedCert victimKey :=
  ⟨[], 0x0C, [64], List.replicate 64 0x31, [], rfl, ⟨by simp⟩, .inl rfl,
    ⟨64, rfl, rfl⟩, by decide⟩

/-- A party that holds no private key completes the handshake with the spoofed
certificate, and is registered as the victim: on the victim's grant, with an
index of its own, in the victim's room. -/
theorem spoofedCert_registered_as_victim :
    Completes (SignatureScheme.symbolic PublicKey Unit)
        (Supernode.acceptAllClientCerts Unit (Option PublicKey)) ∅ ⟨[spoofedCert], (), none⟩ ∧
      (relayOfVictim.handleConnection [spoofedCert] 7 []).2 =
        .registered (b64UrlEncode victimKey) 1 false ∧
      (relayOfVictim.handleConnection [spoofedCert] 7 []).1.peers[b64UrlEncode victimKey]? =
        some { peerIndex := 1, connection := 7, roomId := some "lounge" } ∧
      ¬ SupernodeIdentityMeansKey (SignatureScheme.symbolic PublicKey Unit) spoofedCert := by
  have hid : Supernode.extractPeerId [spoofedCert] = .ok (b64UrlEncode victimKey) :=
    Supernode.extractPeerId_ok_iff.mpr ⟨victimKey, spoofedCert_namesPeer, rfl⟩
  refine ⟨⟨by simp [SignatureScheme.symbolic], rfl⟩, ?_, ?_, ?_⟩
  · simp only [Supernode.RelayState.handleConnection, hid]
    decide +kernel
  · simp only [Supernode.RelayState.handleConnection, hid]
    decide +kernel
  · rw [supernodeIdentityMeansKey_iff]
    exact fun h => h victimKey spoofedCert_namesPeer

end ConquerD.Transport

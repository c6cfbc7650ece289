import ConquerD.Lib.Run
import ConquerD.Supernode.Cluster

/-!
# Supernode: the node as a transition system

Everything that reaches a running node, one event at a time: client messages,
signaling sockets, relay connections and datagrams, and what the cluster link
hands over. A run is a list of events.
-/

namespace ConquerD.Supernode

open Wire

inductive Event where
  | message (env : Env) (msg : SignalingMessage) (raw : String)
  | peerConnected (env : Env) (peer : PublicId)
  | peerDisconnected (env : Env) (peer : PublicId)
  /-- A QUIC connection whose handshake completed with these certificates. -/
  | relayConnected (certs : List (List UInt8)) (connection : Nat) (order : List String)
  /-- A relay connection of the peer that ended. -/
  | relayClosed (peerId : String) (connection : Nat)
  | roomAudioDatagram (env : Env) (fromPeer raw : String) (quotaBytes : Nat)
      (payloadRoom : Option String) (parsed : Option SignalingMessage)
  | gameDatagram (sessionId fromPeer : String) (payload : Lib.Encoding.Bytes)
  | replicated (env : Env) (roomId messageId raw : String)
  | peerAuth (env : Env) (identityPub handle : String) (directInvite : Bool)
  | roomRoster (env : Env) (desc : SupernodeState.RoomDescriptor)
  | spaceRoot (root : SignedSpaceRoot)
  | gcIdleRooms (now idleSecs : Rat)

namespace SupernodeState

variable (P : Platform)

def handle (st : SupernodeState) : Event → Outcome
  | .message env msg raw => st.onMessage P env msg raw
  | .peerConnected env peer => st.onPeerConnected env peer.text
  | .peerDisconnected env peer => st.onPeerDisconnected env peer.text
  | .relayConnected certs connection order =>
    ({ st with relay := (st.relay.handleConnection certs connection order).1 }, [])
  | .relayClosed peerId connection =>
    ({ st with relay := st.relay.connectionClosed peerId connection }, [])
  | .roomAudioDatagram env fromPeer raw quotaBytes payloadRoom parsed =>
    st.handleRoomAudioDatagram P env fromPeer raw quotaBytes payloadRoom parsed
  | .gameDatagram sessionId fromPeer payload => st.replicateGameDatagram P sessionId fromPeer payload
  | .replicated env roomId messageId raw =>
    st.deliverReplicatedRoomFrame P env roomId messageId raw
  | .peerAuth env identityPub handle directInvite =>
    st.applyPeerAuth P env identityPub handle directInvite
  | .roomRoster env desc => (st.applyRoomRoster env desc, [])
  | .spaceRoot root => ({ st with spaceRoots := (st.spaceRoots.accept P root).1 }, [])
  | .gcIdleRooms now idleSecs => ({ st with sfu := st.sfu.gcIdleRooms now idleSecs }, [])

/-- The state after one event. -/
def step (st : SupernodeState) (e : Event) : SupernodeState :=
  (st.handle P e).1

end SupernodeState

end ConquerD.Supernode

import XRaft.Core.Types
import XRaft.Lib.LengthPrefixed

/-!
# The wire format of messages

`codec.rs`: an envelope is serialised with `bincode` and sent behind its length, which is
limited on both sides. The receiver takes nothing but a whole frame and checks the cluster
id last. `bincode` is a parameter; what is assumed of it, that it serialises an envelope
and reads it back, is a property of one envelope.
-/

namespace XRaft

open Lib

/-- `bincode` on envelopes. -/
structure EnvelopeBincode where
  serialize : RpcEnvelope → Except String Bytes
  deserialize : Bytes → Except String RpcEnvelope

/-- The envelope is serialised to the payload, which is read back as the envelope. -/
def EnvelopeBincode.Inverts (bincode : EnvelopeBincode) (envelope : RpcEnvelope) (payload : Bytes) :
    Prop :=
  bincode.serialize envelope = .ok payload ∧ bincode.deserialize payload = .ok envelope

/-- Maximum allowed frame payload size (64 MiB). -/
def maxFrameLen : UInt32 := 64 * 1024 * 1024

/-- Length-prefixed codec for envelopes of one cluster. -/
structure RpcCodec where
  expectedClusterId : ClusterId

namespace RpcCodec

/-- Serialize an envelope into a length-prefixed buffer. -/
def encode (bincode : EnvelopeBincode) (_ : RpcCodec) (envelope : RpcEnvelope) :
    Except XraftError Bytes :=
  match bincode.serialize envelope with
  | .error e => .error (.transportError s!"bincode encode failed: {e}")
  | .ok payload =>
    if 2 ^ 32 ≤ payload.length
      then .error (.transportError "envelope too large for u32 length prefix")
    else
      let len := UInt32.ofNat payload.length
      if len > maxFrameLen then
        .error (.transportError
          s!"encoded envelope ({len} bytes) exceeds MAX_FRAME_LEN ({maxFrameLen} bytes)")
      else .ok (toBeBytes len ++ payload)

/-- Deserialize a length-prefixed buffer into an envelope of the expected cluster. -/
def decode (bincode : EnvelopeBincode) (codec : RpcCodec) (buf : Bytes) :
    Except XraftError RpcEnvelope :=
  if buf.length < 4 then .error (.transportError "buffer too short for length prefix")
  else
    let len := ofBeBytes (buf.take 4)
    if len > maxFrameLen then
      .error (.transportError
        s!"declared frame length ({len} bytes) exceeds MAX_FRAME_LEN ({maxFrameLen} bytes)")
    else
      let payload := buf.drop 4
      if payload.length < len.toNat
        then .error (.transportError "buffer shorter than declared length")
      else if payload.length > len.toNat then
        .error (.transportError "trailing bytes after declared payload length")
      else
        match bincode.deserialize payload with
        | .error e => .error (.transportError s!"bincode decode failed: {e}")
        | .ok envelope =>
          if envelope.clusterId ≠ codec.expectedClusterId then .error .invalidClusterId
          else .ok envelope

variable {bincode : EnvelopeBincode} {envelope : RpcEnvelope} {payload buf : Bytes}

/-- Encoding puts a payload within the limit behind its length. -/
theorem encode_of_le (codec : RpcCodec) (hserialize : bincode.serialize envelope = .ok payload)
    (hlimit : payload.length ≤ maxFrameLen.toNat) :
    codec.encode bincode envelope = .ok (prefixed payload) := by
  have hlength := toNat_length_of_le hlimit
  have hword : ¬ 2 ^ 32 ≤ payload.length := Nat.not_le.mpr (Nat.lt_of_le_of_lt hlimit (by decide))
  have hsmall : ¬ UInt32.ofNat payload.length > maxFrameLen := by
    rw [gt_iff_lt, UInt32.lt_iff_toNat_lt, hlength]
    exact Nat.not_lt.mpr hlimit
  simp only [encode, hserialize, if_neg hword, if_neg hsmall]
  rfl

/-- Encoding fails on a payload beyond the limit. -/
theorem encode_of_lt (codec : RpcCodec) (hserialize : bincode.serialize envelope = .ok payload)
    (hlimit : maxFrameLen.toNat < payload.length) :
    ∃ e, codec.encode bincode envelope = .error e := by
  rw [encode, hserialize]
  dsimp only
  split
  · exact ⟨_, rfl⟩
  · rename_i hword
    have hlength : (UInt32.ofNat payload.length).toNat = payload.length := by
      rw [UInt32.toNat_ofNat']
      exact Nat.mod_eq_of_lt (Nat.not_le.mp hword)
    rw [if_pos (by rw [gt_iff_lt, UInt32.lt_iff_toNat_lt, hlength]; exact hlimit)]
    exact ⟨_, rfl⟩

/-- A whole frame is decoded to its envelope, if that belongs to the expected cluster. -/
theorem decode_of_isPrefixed (codec : RpcCodec) (h : IsPrefixed maxFrameLen payload buf)
    (hdeserialize : bincode.deserialize payload = .ok envelope) :
    codec.decode bincode buf =
      if envelope.clusterId = codec.expectedClusterId then .ok envelope
        else .error .invalidClusterId := by
  obtain ⟨hshort, rfl, hlimit, hlength⟩ := isPrefixed_iff.mp h
  have hsmall : ¬ ofBeBytes (buf.take 4) > maxFrameLen := UInt32.not_lt.mpr hlimit
  rw [decode, if_neg (Nat.not_lt.mpr hshort), if_neg hsmall, if_neg (by omega), if_neg (by omega),
    hdeserialize]
  dsimp only
  rw [ite_not]

/-- What is decoded is a whole frame of an envelope of the expected cluster. -/
theorem isPrefixed_of_decode (codec : RpcCodec) (h : codec.decode bincode buf = .ok envelope) :
    (∃ payload, IsPrefixed maxFrameLen payload buf ∧ bincode.deserialize payload = .ok envelope) ∧
      envelope.clusterId = codec.expectedClusterId := by
  rw [decode] at h
  split at h
  · cases h
  · rename_i hshort
    dsimp only at h
    split at h
    · cases h
    · rename_i hlimit
      split at h
      · cases h
      · rename_i hless
        split at h
        · cases h
        · rename_i hmore
          have hframe : IsPrefixed maxFrameLen (buf.drop 4) buf :=
            isPrefixed_iff.mpr ⟨Nat.not_lt.mp hshort, rfl, UInt32.not_lt.mp hlimit, by omega⟩
          cases hresult : bincode.deserialize (buf.drop 4) with
          | error e =>
            rw [hresult] at h
            cases h
          | ok found =>
            rw [hresult] at h
            dsimp only at h
            split at h
            · cases h
            · rename_i hcluster
              cases h
              exact ⟨⟨_, hframe, hresult⟩, not_not.mp hcluster⟩

/-- An encoded envelope is a frame of the payload it is serialised to. -/
theorem isPrefixed_of_encode (codec : RpcCodec)
    (hserialize : bincode.serialize envelope = .ok payload)
    (h : codec.encode bincode envelope = .ok buf) : IsPrefixed maxFrameLen payload buf := by
  by_cases hlimit : payload.length ≤ maxFrameLen.toNat
  · rw [codec.encode_of_le hserialize hlimit] at h
    cases h
    exact ⟨hlimit, rfl⟩
  · obtain ⟨e, hfailed⟩ := codec.encode_of_lt hserialize (Nat.not_le.mp hlimit)
    rw [hfailed] at h
    cases h

/-- Encoding fails exactly on envelopes that are too long. What it returns decodes to the envelope
for the envelope's cluster and is refused for every other, and no proper part and no extension of
it decodes. Every buffer that decodes is a length within the limit and as many bytes, and holds an
envelope of the expected cluster. -/
theorem rpc_framing (bincode : EnvelopeBincode) (codec : RpcCodec) {envelope : RpcEnvelope}
    {payload : Bytes} (hinverts : bincode.Inverts envelope payload) :
    ((∃ e, codec.encode bincode envelope = .error e) ↔ maxFrameLen.toNat < payload.length) ∧
    (∀ frame, codec.encode bincode envelope = .ok frame → ∀ receiver : RpcCodec,
      receiver.decode bincode frame =
        (if envelope.clusterId = receiver.expectedClusterId then .ok envelope
        else .error .invalidClusterId) ∧
      (∀ part, part <+: frame → part ≠ frame → ∀ found, receiver.decode bincode part ≠ .ok found) ∧
      ∀ extra, extra ≠ [] → ∀ found, receiver.decode bincode (frame ++ extra) ≠ .ok found) ∧
    ∀ buf found, codec.decode bincode buf = .ok found → found.clusterId = codec.expectedClusterId ∧
      ∃ bytes : Bytes, bytes.length ≤ maxFrameLen.toNat ∧
        buf = toBeBytes (UInt32.ofNat bytes.length) ++ bytes := by
  obtain ⟨hserialize, hdeserialize⟩ := hinverts
  refine ⟨⟨fun ⟨e, hfailed⟩ => ?_, codec.encode_of_lt hserialize⟩, ?_, ?_⟩
  · by_contra hlimit
    rw [codec.encode_of_le hserialize (Nat.not_lt.mp hlimit)] at hfailed
    cases hfailed
  · intro frame hencode receiver
    have hframe := codec.isPrefixed_of_encode hserialize hencode
    refine ⟨receiver.decode_of_isPrefixed hframe hdeserialize, ?_, ?_⟩
    · intro part hpart hne found hfound
      obtain ⟨⟨bytes, hbytes, -⟩, -⟩ := receiver.isPrefixed_of_decode hfound
      exact hne (hbytes.eq_of_isPrefix hframe hpart)
    · intro extra hextra found hfound
      obtain ⟨⟨bytes, hbytes, -⟩, -⟩ := receiver.isPrefixed_of_decode hfound
      have hsame := hframe.eq_of_isPrefix hbytes (List.prefix_append frame extra)
      exact hextra (List.append_right_eq_self.mp hsame.symm)
  · intro buf found hfound
    obtain ⟨⟨bytes, ⟨hlimit, hbuf⟩, -⟩, hcluster⟩ := codec.isPrefixed_of_decode hfound
    exact ⟨hcluster, bytes, hlimit, hbuf⟩

/-- A vote request within cluster 7. -/
def voteProbe : RpcEnvelope := ⟨7, 1, 1, .voteRequest ⟨2, 1, 0, 0, false⟩⟩

/-- What `bincode` makes of the vote request: the sixteen bytes of the cluster id behind their
number, the fields as little-endian words, the index of the variant. -/
def voteProbeBytes : Bytes :=
  [16, 0, 0, 0, 0, 0, 0, 0, 0, 0, 0, 0, 0, 0, 0, 0, 0, 0, 0, 0, 0, 0, 0, 7] ++
    [1, 0, 0, 0, 0, 0, 0, 0] ++ [1, 0, 0, 0, 0, 0, 0, 0] ++ [0, 0, 0, 0] ++
    [2, 0, 0, 0, 0, 0, 0, 0] ++ [1, 0, 0, 0, 0, 0, 0, 0] ++ [0, 0, 0, 0, 0, 0, 0, 0] ++
    [0, 0, 0, 0, 0, 0, 0, 0] ++ [0]

/-- `bincode` on this one envelope. -/
def voteProbeBincode : EnvelopeBincode where
  serialize envelope := if envelope = voteProbe then .ok voteProbeBytes else .error "unsupported"
  deserialize bytes := if bytes = voteProbeBytes then .ok voteProbe else .error "unsupported"

/-- The frame of the vote request is decoded for its cluster and refused for another. -/
theorem rpc_framing_voteProbe :
    RpcCodec.decode voteProbeBincode ⟨7⟩ ([0, 0, 0, 77] ++ voteProbeBytes) = .ok voteProbe ∧
      RpcCodec.decode voteProbeBincode ⟨8⟩ ([0, 0, 0, 77] ++ voteProbeBytes) =
        .error .invalidClusterId ∧
      ∀ found, RpcCodec.decode voteProbeBincode ⟨7⟩ ([0, 0, 0, 77] ++ voteProbeBytes ++ [0]) ≠
        .ok found := by
  have hframing := (rpc_framing voteProbeBincode ⟨7⟩ (⟨by decide, by decide⟩ :
    voteProbeBincode.Inverts voteProbe voteProbeBytes)).2.1 ([0, 0, 0, 77] ++ voteProbeBytes)
      (by decide)
  exact ⟨(hframing ⟨7⟩).1, (hframing ⟨8⟩).1, (hframing ⟨7⟩).2.2 [0] (by decide)⟩

end RpcCodec

end XRaft

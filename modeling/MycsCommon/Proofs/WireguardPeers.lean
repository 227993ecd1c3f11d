import MycsCommon.Tailscale.WireguardDevice

/-! The parser of the device's answer never indexes a peer that is not there, and a status it returns
has one peer for every line with a public key. -/

namespace MycsCommon.Tailscale
open List Network DeviceParser

variable {IPNet : Type} {libs : WireguardLibs IPNet} {dp after : DeviceParser IPNet} {values : List Bytes}

/-- What the parser has taken in: the values of the lines with a public key. -/
structure Sound (libs : WireguardLibs IPNet) (values : List Bytes) (dp : DeviceParser IPNet) : Prop where
  counted : dp.peers = dp.d.peers.length
  started : dp.parsePeers = true → 0 < dp.peers
  keys : dp.err = none → dp.d.peers.map (fun peer => .ok peer.publicKey) = values.map (keyOf libs)

/-- A step that keeps the peers' keys, and an error if there is one. -/
structure Frames (dp after : DeviceParser IPNet) : Prop where
  peers : after.peers = dp.peers
  parsePeers : after.parsePeers = dp.parsePeers
  err : after.err = none → dp.err = none
  keys : after.d.peers.map Peer.publicKey = dp.d.peers.map Peer.publicKey

theorem read_eq {α : Type} (parse : Bytes → Except ParseError α) (zero : α) (dp : DeviceParser IPNet) (s : Bytes) :
    ∃ value err, dp.read parse zero s = (value, { dp with err }) ∧ (err = none → dp.err = none) ∧ (err = none → parse s = .ok value) := by
  rw [read.eq_def]
  split
  · next old => exact ⟨zero, dp.err, rfl, id, fun none => by simp [none] at old⟩
  · next none =>
    split
    · next failed => exact ⟨zero, some _, rfl, nofun, nofun⟩
    · next value parsed => exact ⟨value, dp.err, rfl, id, fun _ => parsed⟩

theorem map_setPeer {peer changed : Peer IPNet} (here : dp.curPeer = some peer) (same : changed.publicKey = peer.publicKey) :
    (dp.d.peers.set (dp.peers - 1) changed).map Peer.publicKey = dp.d.peers.map Peer.publicKey := by
  obtain ⟨-, here⟩ := Option.ite_none_left_eq_some.mp here
  obtain ⟨inside, rfl⟩ := List.getElem?_eq_some_iff.mp here
  rw [map_set, same, ← getElem_map Peer.publicKey, set_getElem_self]
  simpa using inside

theorem parseField_frames (sound : Sound libs values dp) (field : Field) (value : Bytes) :
    ∃ after, dp.parseField libs field value = some after ∧ Frames dp after := by
  obtain ⟨key, keyErr, sameKey, keptKey, -⟩ := read_eq (keyOf libs) Key.zero dp value
  obtain ⟨number, numberErr, sameNumber, keptNumber, -⟩ := read_eq numberOf 0 dp value
  obtain ⟨cidr, cidrErr, sameCidr, keptCidr, -⟩ := read_eq (cidrOf libs) none dp value
  rw [parseField.eq_def]
  split
  · next inPeers =>
    have started := sound.started inPeers
    have inside : dp.peers - 1 < dp.d.peers.length := sound.counted ▸ Nat.sub_one_lt_of_lt started
    have here : dp.curPeer = some dp.d.peers[dp.peers - 1] := by rw [curPeer, if_neg started.ne', getElem?_eq_getElem inside]
    rw [peerParse, here]
    refine ⟨_, rfl, ?_⟩
    cases field <;> simp only [parseKey, parseInt, parseInt64, DeviceParser.parseCIDR, sameKey, sameNumber, sameCidr]
    case presharedKey => exact ⟨rfl, rfl, keptKey, map_setPeer here rfl⟩
    case lastHandshakeTimeSec => exact ⟨rfl, rfl, keptNumber, rfl⟩
    case lastHandshakeTimeNsec =>
      split_ifs
      · exact ⟨rfl, rfl, keptNumber, map_setPeer here rfl⟩
      · exact ⟨rfl, rfl, keptNumber, rfl⟩
    case allowedIP => exact ⟨rfl, rfl, keptCidr, map_setPeer here rfl⟩
    case txBytes | rxBytes | persistentKeepaliveInterval | protocolVersion =>
      exact ⟨rfl, rfl, keptNumber, map_setPeer here rfl⟩
    all_goals exact ⟨rfl, rfl, id, rfl⟩
  · refine ⟨_, rfl, ?_⟩
    cases field <;> simp only [parseKey, parseInt, sameKey, sameNumber]
    case privateKey => exact ⟨rfl, rfl, keptKey, rfl⟩
    case listenPort | fwmark => exact ⟨rfl, rfl, keptNumber, rfl⟩
    all_goals exact ⟨rfl, rfl, id, rfl⟩

theorem Sound.frames (sound : Sound libs values dp) (frames : Frames dp after) : Sound libs values after := by
  have lengths := congrArg length frames.keys
  simp only [length_map] at lengths
  refine ⟨by rw [frames.peers, lengths, sound.counted], fun inPeers => ?_, fun none => ?_⟩
  · rw [frames.peers]
    exact sound.started (frames.parsePeers ▸ inPeers)
  · rw [← sound.keys (frames.err none)]
    simpa [Function.comp_def] using congrArg (map (@Except.ok ParseError Key)) frames.keys

theorem parse_sound (sound : Sound libs values dp) (key value : Bytes) :
    ∃ after, dp.parse libs key value = some after ∧ Sound libs (values ++ if Field.of key = .publicKey then [value] else []) after := by
  rw [DeviceParser.parse]
  split
  · next field =>
    obtain ⟨number, err, same, kept, -⟩ := read_eq numberOf 0 dp value
    have noted : Sound libs values { dp with err } := sound.frames ⟨rfl, rfl, kept, rfl⟩
    simp only [parseInt, same, field, reduceCtorEq, if_false, append_nil]
    split
    · exact ⟨_, rfl, sound.frames ⟨rfl, rfl, nofun, rfl⟩⟩
    · obtain ⟨after, done, frames⟩ := parseField_frames noted .errno value
      exact ⟨after, done, noted.frames frames⟩
  · next field =>
    obtain ⟨publicKey, err, same, kept, parsed⟩ := read_eq (keyOf libs) Key.zero { dp with parsePeers := true, peers := dp.peers + 1 } value
    simp only [parseKey, same, field, if_true]
    exact ⟨_, rfl, by simp [sound.counted], fun _ => Nat.succ_pos _, fun none => by simp [sound.keys (kept none), parsed none]⟩
  · next other =>
    obtain ⟨after, done, frames⟩ := parseField_frames sound (Field.of key) value
    rw [if_neg other, append_nil]
    exact ⟨after, done, sound.frames frames⟩

/-- The value of a line with a public key. -/
def publicKey? (line : Bytes) : Option Bytes :=
  match line.splitOn 61 with
  | [key, value] => if Field.of key = .publicKey then some value else none
  | _ => none

/-- The loop returns an error, or it has taken in all lines before the first empty one. -/
theorem parseLines_sound (sound : Sound libs values dp) (tooLong : Bool) (lines : List Bytes) :
    (∃ error, parseLines libs tooLong dp lines = .error (.error error)) ∨
      ∃ after, parseLines libs tooLong dp lines = .ok after ∧
        (∀ line ∈ lines.takeWhile (· ≠ []), (line.splitOn 61).length = 2) ∧
          Sound libs (values ++ (lines.takeWhile (· ≠ [])).filterMap publicKey?) after := by
  induction lines generalizing dp values with
  | nil =>
    rw [parseLines]
    split
    · exact .inl ⟨_, rfl⟩
    · exact .inr ⟨dp, rfl, by simpa using sound⟩
  | cons line lines ih =>
    rw [parseLines]
    split
    · next empty => exact .inr ⟨dp, rfl, by simpa [empty] using sound⟩
    · next full =>
      split
      · next key value parts =>
        obtain ⟨after, parsed, sound⟩ := @parse_sound _ libs _ _ sound key value
        rw [parsed]
        refine (ih sound).imp_right fun ⟨last, done, pairs, sound⟩ => ⟨last, done, by simpa [full, parts] using pairs, ?_⟩
        by_cases opens : Field.of key = .publicKey <;> simpa [full, publicKey?, parts, opens] using sound
      · exact .inl ⟨_, rfl⟩

/-- No answer makes the parser index a peer that is not there. It returns an error, or a status from lines
that are pairs, up to the first empty one, whose peers have the keys of the lines with a public key, one
for each and in their order. -/
theorem parseDevice_spec (libs : WireguardLibs IPNet) (text : Bytes) :
    (∃ error, parseDevice libs text = .error (.error error)) ∨
      ∃ device, parseDevice libs text = .ok device ∧
        (∀ line ∈ (scan text).1.takeWhile (· ≠ []), (line.splitOn 61).length = 2) ∧
          device.peers.map (fun peer => .ok peer.publicKey) =
            (((scan text).1.takeWhile (· ≠ [])).filterMap publicKey?).map (keyOf libs) := by
  have start : Sound libs [] ({} : DeviceParser IPNet) := ⟨rfl, nofun, fun _ => rfl⟩
  have bind : parseDevice libs text =
      (parseLines libs (scan text).2 {} (scan text).1).bind fun dp => (dp.device libs).mapError .error := rfl
  rw [bind]
  obtain ⟨error, failed⟩ | ⟨dp, done, pairs, sound⟩ := @parseLines_sound _ libs _ _ start (scan text).2 (scan text).1
  · exact .inl ⟨error, by rw [failed, Except.bind]⟩
  · rw [done, Except.bind, device]
    cases err : dp.err with
    | some error => exact .inl ⟨error, rfl⟩
    | none => exact .inr ⟨_, rfl, pairs, sound.keys err⟩

end MycsCommon.Tailscale

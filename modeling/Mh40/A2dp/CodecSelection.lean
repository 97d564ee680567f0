import Mh40.A2dp.CodecChecks
import Mh40.Lib.Choice

/-!
# Selection of a configuration

Model of the functions that choose the codec configuration in `a2dp_codec_sbc.c`,
`a2dp_codec_mp3.c`, `a2dp_codec_aac.c` and `a2dp_codec_aptx_adaptive.c`. They write it over the
codec entry of the remote device.

* A chain of tests for single bits is a `firstMatch` over the rows of the chain, in its order.
* `Mp3Row`: a row of the tables of conditions. The high byte of a word is an index, the low one a
  mask, and `0xFFFF` stands for no last word.
* `none` is an index outside of an entry.
-/

namespace Mh40.A2dp

open Lib.Choice

/-! ## SBC -/

/-- `selectOptimalCommonSbcCaps`. -/
def selectOptimalCommonSbcCaps (localCaps remoteCaps : Caps) : Option Caps := do
  let local4 ← localCaps[4]?
  let remote4 ← remoteCaps[4]?
  let remote5 ← remoteCaps[5]?
  let local6 ← localCaps[6]?
  let remote6 ← remoteCaps[6]?
  let local7 ← localCaps[7]?
  let remote7 ← remoteCaps[7]?
  -- joint stereo, stereo, dual channel, mono
  let channelMode := firstMatch (remote4 &&& local4) [(0x01, 0xf1), (0x02, 0xf2), (0x04, 0xf4)] 0xf8
  -- 16, 12, 8, 4 blocks
  let blockLength := firstMatch remote5 [(0x10, 0x1f), (0x20, 0x2f), (0x40, 0x4f)] 0x8f
  let remote5 := remote5 &&& blockLength
  -- 8, 4 subbands
  let subbands := firstMatch remote5 [(0x04, 0xf7)] 0xfb
  let remote5 := remote5 &&& subbands
  -- loudness, SNR
  let allocation := firstMatch remote5 [(0x01, 0xfd)] 0xfe
  let remote5 := remote5 &&& allocation
  let remote6 := if local6 > remote6 then local6 else remote6
  let remote7 := if local7 < remote7 then local7 else remote7
  some ((((remoteCaps.set 4 (remote4 &&& channelMode)).set 5 remote5).set 6 remote6).set 7 remote7)

/-- `selectOptimalSbcCapsSink`: 44.1, 48, 32, 16 kHz. -/
def selectOptimalSbcCapsSink (localCaps remoteCaps : Caps) : Option Caps := do
  let remote4 ← remoteCaps[4]?
  let frequency := firstMatch remote4 [(0x20, 0x2f), (0x10, 0x1f), (0x40, 0x4f)] 0x8f
  selectOptimalCommonSbcCaps localCaps (remoteCaps.set 4 (remote4 &&& frequency))

/-- `selectOptimalSbcCapsSource`: 48, 44.1, 32, 16 kHz. -/
def selectOptimalSbcCapsSource (localCaps remoteCaps : Caps) : Option Caps := do
  let remote4 ← remoteCaps[4]?
  let local4 ← localCaps[4]?
  let frequency := firstMatch (remote4 &&& local4) [(0x10, 0x1f), (0x20, 0x2f), (0x40, 0x4f)] 0x8f
  selectOptimalCommonSbcCaps localCaps (remoteCaps.set 4 (remote4 &&& frequency))

/-! ## MPEG-1,2 audio -/

/-- Four words of a table: if the remote and the local capabilities both meet their conditions, the
remote ones are masked, at one index or at two. -/
structure Mp3Row where
  ifRemote : BitVec 16
  ifLocal : BitVec 16
  keep : BitVec 16
  keepRate : BitVec 16

def capsIndex (word : BitVec 16) : ℕ := (word >>> 8).toNat

def capsMask (word : BitVec 16) : Octet := word.setWidth 8

/-- `mp3CapsChannelMode`. -/
def mp3CapsChannelMode : List Mp3Row :=
  [⟨0x0401, 0x0401, 0x04f1, 0xffff⟩, ⟨0x0402, 0x0402, 0x04f2, 0xffff⟩,
    ⟨0x0404, 0x0404, 0x04f4, 0xffff⟩, ⟨0x04ff, 0x04ff, 0x04f8, 0xffff⟩]

/-- `mp3CapsSampleRate`. -/
def mp3CapsSampleRate : List Mp3Row :=
  [⟨0x0502, 0x0502, 0x05c2, 0xffff⟩, ⟨0x0501, 0x0501, 0x05c1, 0xffff⟩,
    ⟨0x0504, 0x0504, 0x05c4, 0xffff⟩, ⟨0x0508, 0x0508, 0x05c8, 0xffff⟩,
    ⟨0x0510, 0x0510, 0x05d0, 0xffff⟩, ⟨0x05ff, 0x05ff, 0x05e0, 0xffff⟩]

/-- `mp3CapsBitRate`. -/
def mp3CapsBitRate : List Mp3Row :=
  [⟨0x0602, 0x0602, 0x0682, 0x0700⟩, ⟨0x0601, 0x0601, 0x0681, 0x0700⟩,
    ⟨0x0604, 0x0604, 0x0684, 0x0700⟩, ⟨0x0780, 0x0780, 0x0680, 0x0780⟩,
    ⟨0x0608, 0x0608, 0x0688, 0x0700⟩, ⟨0x0740, 0x0740, 0x0680, 0x0740⟩,
    ⟨0x0610, 0x0610, 0x0690, 0x0700⟩, ⟨0x0720, 0x0720, 0x0680, 0x0720⟩,
    ⟨0x0620, 0x0620, 0x06a0, 0x0700⟩, ⟨0x0710, 0x0710, 0x0680, 0x0710⟩,
    ⟨0x0640, 0x0640, 0x06c0, 0x0700⟩, ⟨0x0708, 0x0708, 0x0680, 0x0708⟩,
    ⟨0x0704, 0x0704, 0x0680, 0x0704⟩, ⟨0x0702, 0x0702, 0x0680, 0x0702⟩]

/-- `mp3CapsTable`. -/
def mp3CapsTable : List (List Mp3Row) := [mp3CapsChannelMode, mp3CapsSampleRate, mp3CapsBitRate]

/-- A byte is masked. -/
def andByte (caps : Caps) (i : ℕ) (mask : Octet) : Option Caps :=
  (caps[i]?).map fun b => caps.set i (b &&& mask)

/-- The condition of a row. The local capabilities are only looked at when the remote ones meet
theirs. -/
def rowMatches (row : Mp3Row) (localCaps remoteCaps : Caps) : Option Bool := do
  let remote ← remoteCaps[capsIndex row.ifRemote]?
  if remote &&& capsMask row.ifRemote = 0 then some false
  else (localCaps[capsIndex row.ifLocal]?).map fun l => l &&& capsMask row.ifLocal != 0

/-- What a row does. The last word is only there for the bit rates, and then the VBR bit goes too if
the local side does not have it. -/
def applyRow (row : Mp3Row) (localCaps remoteCaps : Caps) : Option Caps := do
  let remoteCaps ← andByte remoteCaps (capsIndex row.keep) (capsMask row.keep)
  if row.keepRate = 0xffff then some remoteCaps
  else do
    let remoteCaps ← andByte remoteCaps (capsIndex row.keepRate) (capsMask row.keepRate)
    let local6 ← localCaps[6]?
    andByte remoteCaps 6 (local6 ||| 0x7f)

/-- One table: the first row whose condition holds is applied. -/
def parseTable (localCaps : Caps) : List Mp3Row → Caps → Option Caps
  | [], remoteCaps => some remoteCaps
  | row :: rows, remoteCaps => do
    let found ← rowMatches row localCaps remoteCaps
    if found then applyRow row localCaps remoteCaps
    else parseTable localCaps rows remoteCaps

/-- `selectMp3Caps`, which is `selectOptimalMp3CapsSink` and `selectOptimalMp3CapsSource`. -/
def selectMp3Caps (localCaps remoteCaps : Caps) : Option Caps :=
  mp3CapsTable.foldlM (fun caps table => parseTable localCaps table caps) remoteCaps

/-! ## AAC -/

/-- `selectOptimalAacCaps`, for the sink and for the source. -/
def selectOptimalAacCaps (remoteCaps : Caps) : Option Caps := do
  let remote4 ← remoteCaps[4]?
  let remote6 ← remoteCaps[6]?
  let remote5 ← remoteCaps[5]?
  -- MPEG-4 AAC LC, MPEG-2 AAC LC
  let remote4 : Octet := firstMatch remote4 [(1#8 <<< 6, 1#8 <<< 6)] (1#8 <<< 7)
  -- stereo, mono
  let channels : Octet := firstMatch remote6 [(1#8 <<< 2, 1#8 <<< 2 ||| 0xf0)] (1#8 <<< 3 ||| 0xf0)
  let remote6 := remote6 &&& channels
  let caps := remoteCaps.set 4 remote4
  if remote6 &&& 1#8 <<< 7 ≠ 0 then
    -- 48 kHz
    some ((caps.set 6 (remote6 &&& (1#8 <<< 7 ||| 0x0f))).set 5 0)
  else
    -- 44.1, 32, 24, 22.05, 16, 12, 11.025, 8 kHz
    some ((caps.set 6 (remote6 &&& 0x0f)).set 5 (firstMatch remote5
      [(1#8 <<< 0, 1#8 <<< 0), (1#8 <<< 1, 1#8 <<< 1), (1#8 <<< 2, 1#8 <<< 2), (1#8 <<< 3, 1#8 <<< 3),
        (1#8 <<< 4, 1#8 <<< 4), (1#8 <<< 5, 1#8 <<< 5), (1#8 <<< 6, 1#8 <<< 6)] (1#8 <<< 7)))

/-! ## aptX Adaptive -/

/-- `selectSamplingRateIfSupportedByBothSides` and `selectChannelModeIfSupportedByBothSides`: a bit
of the field that both sides have becomes the only one of the field. -/
def selectIfSupportedByBothSides (others : Octet) (remote localBits bit : Octet) : Octet :=
  if remote &&& localBits &&& bit ≠ 0 then remote &&& (others ||| bit) else remote

/-- `selectOptimalSamplingRate`: 44.1, 48, 96, 96 (TWM), 192 kHz. -/
def selectOptimalSamplingRate (remoteSamplingRates localSamplingRates : Octet) : Octet :=
  if areSamplingRatesCompatible remoteSamplingRates localSamplingRates then
    [1#8 <<< 3, 1#8 <<< 4, 1#8 <<< 5, 1#8 <<< 7, 1#8 <<< 6].foldl
      (fun remote rate => selectIfSupportedByBothSides 0x07 remote localSamplingRates rate)
      remoteSamplingRates
  else 0

/-- `selectOptimalChannelMode`: joint stereo, stereo, TWS+, TWS stereo, TWS mono, mono. -/
def selectOptimalChannelMode (remoteChannelModes localChannelModes : Octet) : Octet :=
  if areChannelModesCompatible remoteChannelModes localChannelModes then
    [1#8 <<< 3, 1#8 <<< 1, 1#8 <<< 5, 1#8 <<< 2, 1#8 <<< 4, 1#8 <<< 0].foldl
      (fun remote mode => selectIfSupportedByBothSides 0xc0 remote localChannelModes mode)
      remoteChannelModes
  else 0

/-- `selectRemoteFeatures`: split streaming, split acknowledgement, kernel 2.1 and TWM are cleared
unless both sides have them. -/
def selectRemoteFeatures (remoteFeatures localFeatures : Octet) : Octet :=
  [1#8 <<< 2, 1#8 <<< 3, 1#8 <<< 1, 1#8].foldl
    (fun features feature =>
      if remoteFeatures &&& localFeatures &&& feature = 0 then features &&& (0xff - feature)
      else features)
    remoteFeatures

/-- The selection for aptX Adaptive. The sink sets a bit in the octet of the rates. -/
def selectAptxAdCaps (q2qMode : Octet) (localCaps remoteCaps : Caps) : Option Caps := do
  let remote10 ← remoteCaps[10]?
  let local10 ← localCaps[10]?
  let remote11 ← remoteCaps[11]?
  let local11 ← localCaps[11]?
  let remote20 ← remoteCaps[20]?
  let local20 ← localCaps[20]?
  some (((remoteCaps.set 10 (selectOptimalSamplingRate remote10 local10 ||| q2qMode)).set 11
    (selectOptimalChannelMode remote11 local11)).set 20 (selectRemoteFeatures remote20 local20))

/-- `selectOptimalAptxAdCapsSink`. -/
def selectOptimalAptxAdCapsSink : Caps → Caps → Option Caps := selectAptxAdCaps 1

/-- `selectOptimalAptxAdCapsSource`. -/
def selectOptimalAptxAdCapsSource : Caps → Caps → Option Caps := selectAptxAdCaps 0

/-! ## All four -/

inductive Codec where
  | sbc
  | mpeg12
  | aac
  | aptxAdaptive
  deriving DecidableEq

/-- The role of the local device. -/
inductive Role where
  | sink
  | source
  deriving DecidableEq

/-- The selection that `a2dpSelectOptimalCodecSettings` makes for one of these codecs. -/
def selectOptimalCaps (codec : Codec) (role : Role) (localCaps remoteCaps : Caps) : Option Caps :=
  match codec, role with
  | .sbc, .sink => selectOptimalSbcCapsSink localCaps remoteCaps
  | .sbc, .source => selectOptimalSbcCapsSource localCaps remoteCaps
  | .mpeg12, _ => selectMp3Caps localCaps remoteCaps
  | .aac, _ => selectOptimalAacCaps remoteCaps
  | .aptxAdaptive, .sink => selectOptimalAptxAdCapsSink localCaps remoteCaps
  | .aptxAdaptive, .source => selectOptimalAptxAdCapsSource localCaps remoteCaps

end Mh40.A2dp

import Mathlib.Data.Nat.Notation

/-!
# Compatibility of two codecs

Model of the codec checks of `a2dp_caps_parse.c`, as the library is built without `INCLUDE_ATRAC`
and without `A2DP_SBC_ONLY`, and of the one of `a2dp_codec_aptx_adaptive.c`.

* A pointer into a list of capabilities is the rest of the list from there on, so `none` is a read
  outside of the list.
* `checkField`: the pair of tests that the codecs make for each of their fields.
* `areCodecsCompatible`: what `a2dpFindMatchingCodecSpecificInformation` does with the two codec
  entries that it has found.
-/

namespace Mh40.A2dp

abbrev Octet := BitVec 8

abbrev Caps := List Octet

abbrev avdtpServiceMediaCodec : Octet := 7

abbrev avdtpMediaTypeAudio : Octet := 0

abbrev avdtpMediaCodecSbc : Octet := 0
abbrev avdtpMediaCodecMpeg12Audio : Octet := 1
abbrev avdtpMediaCodecMpeg24Aac : Octet := 2
abbrev avdtpMediaCodecNonA2dp : Octet := 0xff

abbrev a2dpCsrVendorId : BitVec 32 := 0x0a000000
abbrev a2dpAptVendorId : BitVec 32 := 0x4f000000
abbrev a2dpQtiVendorId : BitVec 32 := 0xd7000000

abbrev a2dpCsrFaststreamCodecId : BitVec 16 := 0x0100
abbrev a2dpCsrAptxAclSprintCodecId : BitVec 16 := 0x0200
abbrev a2dpCsrAptxCodecId : BitVec 16 := 0x0100
abbrev a2dpQtiAptxLlCodecId : BitVec 16 := 0x0200
abbrev a2dpQtiAptxhdCodecId : BitVec 16 := 0x2400
abbrev a2dpQtiAptxAdCodecId : BitVec 16 := 0xad00

/-! ## Fields -/

/-- A single bit of the mask is set. -/
def oneBitSet (bitMask : BitVec 32) : Bool :=
  bitMask != 0 && (bitMask &&& (bitMask - 1)) == 0

/-- The bits of a field overlap, and the initiator may still offer several of them. -/
def checkField (overlap : BitVec 32) (remote : BitVec 32) (initiating : Bool) : Bool :=
  overlap != 0 && (oneBitSet remote || initiating)

/-- A byte in an expression. -/
abbrev unsigned (b : Octet) : BitVec 32 := b.setWidth 32

/-! ## Standard codecs -/

/-- `areSBCCodecsCompatible`. -/
def areSBCCodecsCompatible (localCaps remoteCaps : Caps) (localLosc remoteLosc : Octet)
    (initiating : Bool) : Option Bool :=
  if localLosc < 6 then some false
  else if remoteLosc < 6 then some false
  else do
    let local0 ← localCaps[0]?
    let remote0 ← remoteCaps[0]?
    -- sampling frequency and channel mode
    if !checkField (unsigned local0 >>> 4 &&& unsigned remote0 >>> 4) (unsigned remote0 &&& 0xf0)
        initiating then some false
    else if !checkField (unsigned local0 &&& 15 &&& (unsigned remote0 &&& 15))
        (unsigned remote0 &&& 0xf) initiating then some false
    else do
      let local1 ← localCaps[1]?
      let remote1 ← remoteCaps[1]?
      -- block length, subbands and allocation method
      if !checkField (unsigned local1 >>> 4 &&& unsigned remote1 >>> 4) (unsigned remote1 &&& 0xf0)
          initiating then some false
      else if !checkField (unsigned local1 >>> 2 &&& 3#32 &&& (unsigned remote1 >>> 2 &&& 3#32))
          (unsigned remote1 &&& 0xc) initiating then some false
      else if !checkField (unsigned local1 &&& 3 &&& (unsigned remote1 &&& 3))
          (unsigned remote1 &&& 0x3) initiating then some false
      else do
        let localMin ← localCaps[2]?
        let localMax ← localCaps[3]?
        let remoteMin ← remoteCaps[2]?
        let remoteMax ← remoteCaps[3]?
        if initiating then
          if localMin > remoteMax then some false
          else if remoteMin > localMax then some false
          else some true
        else if remoteMax > localMax then some false
        else if remoteMin < localMin then some false
        else some true

/-- `areMPEG12AudioCodecsCompatible`. -/
def areMPEG12AudioCodecsCompatible (localCaps remoteCaps : Caps) (localLosc remoteLosc : Octet)
    (initiating : Bool) : Option Bool :=
  if localLosc < 6 then some false
  else if remoteLosc < 6 then some false
  else do
    let local0 ← localCaps[0]?
    let remote0 ← remoteCaps[0]?
    -- layer and channel mode
    if !checkField (unsigned local0 >>> 5 &&& unsigned remote0 >>> 5) (unsigned remote0 &&& 0xe0)
        initiating then some false
    else if !checkField (unsigned local0 &&& 0x0f &&& (unsigned remote0 &&& 0x0f))
        (unsigned remote0 &&& 0x0f) initiating then some false
    else do
      let local1 ← localCaps[1]?
      let remote1 ← remoteCaps[1]?
      -- sampling frequency
      if !checkField (unsigned local1 &&& 0x3f &&& (unsigned remote1 &&& 0x3f))
          (unsigned remote1 &&& 0x3f) initiating then some false
      else do
        let local2 ← localCaps[2]?
        let local3 ← localCaps[3]?
        let remote2 ← remoteCaps[2]?
        let remote3 ← remoteCaps[3]?
        let localBitRate := (unsigned local2 &&& 0x7f) <<< 8 ||| unsigned local3 &&& 0xff
        let remoteBitRate := (unsigned remote2 &&& 0x7f) <<< 8 ||| unsigned remote3 &&& 0xff
        if localBitRate &&& remoteBitRate = 0 then some false
        else some true

/-- The sampling frequency field of an AAC codec. -/
def aacFrequency (caps1 caps2 : Octet) : BitVec 32 :=
  unsigned caps1 ||| (unsigned caps2 &&& 0xf0) <<< 4

/-- `areMPEG24AACCodecsCompatible`. -/
def areMPEG24AACCodecsCompatible (localCaps remoteCaps : Caps) (localLosc remoteLosc : Octet)
    (initiating : Bool) : Option Bool :=
  if localLosc < 8 then some false
  else if remoteLosc < 8 then some false
  else do
    let local0 ← localCaps[0]?
    let remote0 ← remoteCaps[0]?
    -- object type
    if !checkField (unsigned local0 &&& unsigned remote0) (unsigned remote0) initiating then
      some false
    else do
      let local1 ← localCaps[1]?
      let local2 ← localCaps[2]?
      let remote1 ← remoteCaps[1]?
      let remote2 ← remoteCaps[2]?
      -- sampling frequency and channels
      if !checkField (aacFrequency local1 local2 &&& aacFrequency remote1 remote2)
          (aacFrequency remote1 remote2) initiating then some false
      else if !checkField (unsigned local2 &&& 0x0c &&& (unsigned remote2 &&& 0x0c))
          (unsigned remote2 &&& 0x0c) initiating then some false
      else some true

/-! ## Vendor codecs -/

/-- Whether the sample rates of the music are compatible, or `none` where not both sides support
music. -/
def fastStreamMusic (localCaps remoteCaps : Caps) (both6 : Octet) : Option (Option Bool) :=
  if both6 &&& 1 = 0 then some none
  else do
    let local7 ← localCaps[7]?
    let remote7 ← remoteCaps[7]?
    some (some (local7 &&& remote7 &&& 0x0f != 0))

/-- `areCsrFastStreamCodecsCompatible`. -/
def areCsrFastStreamCodecsCompatible (localCaps remoteCaps : Caps) (localLosc remoteLosc : Octet) :
    Option Bool :=
  if localLosc < 8 ∨ remoteLosc < 8 then some false
  else do
    let local6 ← localCaps[6]?
    let remote6 ← remoteCaps[6]?
    let musicOk ← fastStreamMusic localCaps remoteCaps (local6 &&& remote6)
    if musicOk = some false then some false
    else if local6 &&& remote6 &&& 2 = 0 then some (musicOk == some true)
    else do
      let local7 ← localCaps[7]?
      let remote7 ← remoteCaps[7]?
      some (local7 &&& remote7 &&& 0xf0 != 0)

/-- `areAptxCodecsCompatible`. -/
def areAptxCodecsCompatible (localCaps remoteCaps : Caps) (localLosc remoteLosc : Octet)
    (channelModeMask sampleRateMask : Octet) : Option Bool :=
  if localLosc < 7 ∨ remoteLosc < 7 then some false
  else do
    let local6 ← localCaps[6]?
    let remote6 ← remoteCaps[6]?
    if local6 &&& remote6 &&& channelModeMask = 0 then some false
    else if local6 &&& remote6 &&& sampleRateMask = 0 then some false
    else some true

/-- `areSamplingRatesCompatible`. -/
def areSamplingRatesCompatible (remoteSamplingRates localSamplingRates : Octet) : Bool :=
  remoteSamplingRates &&& localSamplingRates &&& 0xf8 != 0

/-- `areChannelModesCompatible`. -/
def areChannelModesCompatible (remoteChannelModes localChannelModes : Octet) : Bool :=
  remoteChannelModes &&& localChannelModes &&& 0x3f != 0

/-- `areAptxAdCodecsCompatible`. -/
def areAptxAdCodecsCompatible (localCaps remoteCaps : Caps) (localLosc remoteLosc : Octet) :
    Option Bool :=
  if localLosc < 19 ∨ remoteLosc < 19 then some false
  else do
    let remote6 ← remoteCaps[6]?
    let local6 ← localCaps[6]?
    if !areSamplingRatesCompatible remote6 local6 then some false
    else do
      let remote7 ← remoteCaps[7]?
      let local7 ← localCaps[7]?
      some (areChannelModesCompatible remote7 local7)

/-- `a2dpConvertUint8ValuesToUint32`. -/
def a2dpConvertUint8ValuesToUint32 (ptr : Caps) : Option (BitVec 32) := do
  let b0 ← ptr[0]?
  let b1 ← ptr[1]?
  let b2 ← ptr[2]?
  let b3 ← ptr[3]?
  some (unsigned b0 <<< 24 ||| unsigned b1 <<< 16 ||| unsigned b2 <<< 8 ||| unsigned b3)

/-- `a2dpConvertUint8ValuesToUint16`. -/
def a2dpConvertUint8ValuesToUint16 (ptr : Caps) : Option (BitVec 16) := do
  let b0 ← ptr[0]?
  let b1 ← ptr[1]?
  some (b0.setWidth 16 <<< 8 ||| b1.setWidth 16)

/-- `areVendorCodecsCompatible`. A codec that is not known is left to the application. -/
def areVendorCodecsCompatible (localCaps remoteCaps : Caps) (localLosc remoteLosc : Octet) :
    Option Bool :=
  if localLosc < 6 then some false
  else if remoteLosc < 6 then some false
  else do
    let localVendorId ← a2dpConvertUint8ValuesToUint32 localCaps
    let remoteVendorId ← a2dpConvertUint8ValuesToUint32 remoteCaps
    let localCodecId ← a2dpConvertUint8ValuesToUint16 (localCaps.drop 4)
    let remoteCodecId ← a2dpConvertUint8ValuesToUint16 (remoteCaps.drop 4)
    if localVendorId ≠ remoteVendorId ∨ localCodecId ≠ remoteCodecId then some false
    else if remoteVendorId = a2dpCsrVendorId ∧ remoteCodecId = a2dpCsrFaststreamCodecId then
      areCsrFastStreamCodecsCompatible localCaps remoteCaps localLosc remoteLosc
    else if remoteVendorId = a2dpCsrVendorId ∧ remoteCodecId = a2dpCsrAptxAclSprintCodecId then
      areAptxCodecsCompatible localCaps remoteCaps localLosc remoteLosc 0x02 0x30
    else if remoteVendorId = a2dpAptVendorId ∧ remoteCodecId = a2dpCsrAptxCodecId then
      areAptxCodecsCompatible localCaps remoteCaps localLosc remoteLosc 0x02 0xf0
    else if remoteVendorId = a2dpQtiVendorId ∧ remoteCodecId = a2dpQtiAptxAdCodecId then
      areAptxAdCodecsCompatible localCaps remoteCaps localLosc remoteLosc
    else if remoteVendorId = a2dpQtiVendorId ∧ remoteCodecId = a2dpQtiAptxhdCodecId then
      areAptxCodecsCompatible localCaps remoteCaps localLosc remoteLosc 0x02 0xf0
    else if remoteVendorId = a2dpQtiVendorId ∧ remoteCodecId = a2dpQtiAptxLlCodecId then
      areAptxCodecsCompatible localCaps remoteCaps localLosc remoteLosc 0x02 0x30
    else some true

/-- The comparison of the two codec entries in `a2dpFindMatchingCodecSpecificInformation`. -/
def areCodecsCompatible (localCodec remoteCodec : Caps) (initiating : Bool) : Option Bool := do
  let local2 ← localCodec[2]?
  let remote2 ← remoteCodec[2]?
  if local2 ≠ remote2 then some false
  else do
    let local3 ← localCodec[3]?
    let remote3 ← remoteCodec[3]?
    if local3 ≠ remote3 then some false
    -- media types and codecs that are not known are accepted
    else if local2 ≠ avdtpMediaTypeAudio <<< 2 then some true
    else do
      let local1 ← localCodec[1]?
      let remote1 ← remoteCodec[1]?
      if local3 = avdtpMediaCodecSbc then
        areSBCCodecsCompatible (localCodec.drop 4) (remoteCodec.drop 4) local1 remote1 initiating
      else if local3 = avdtpMediaCodecMpeg12Audio then
        areMPEG12AudioCodecsCompatible (localCodec.drop 4) (remoteCodec.drop 4) local1 remote1
          initiating
      else if local3 = avdtpMediaCodecMpeg24Aac then
        areMPEG24AACCodecsCompatible (localCodec.drop 4) (remoteCodec.drop 4) local1 remote1
          initiating
      else if local3 = avdtpMediaCodecNonA2dp then
        areVendorCodecsCompatible (localCodec.drop 4) (remoteCodec.drop 4) local1 remote1
      else some true

end Mh40.A2dp

import Mh40.A2dp.CodecChecks

/-!
# Parsing of service capabilities

Model of the functions of `a2dp_caps_parse.c` that go through a list of capabilities.

* A pointer into a list is the rest of the list from there on, so `none` is a read outside of the
  list. A loop also ends with `none` when it takes more turns than it is given, which is one more
  than the list has bytes. The pointers that are passed in are not `NULL`.
* `Verdict`: what `a2dpValidateServiceCaps` returns and writes. The category is `none` where it is
  not written.
-/

namespace Mh40.A2dp

abbrev avdtpServiceMediaTransport : Octet := 1
abbrev avdtpServiceReporting : Octet := 2
abbrev avdtpServiceRecovery : Octet := 3
abbrev avdtpServiceContentProtection : Octet := 4
abbrev avdtpServiceHeaderCompression : Octet := 5
abbrev avdtpServiceMultiplexing : Octet := 6
abbrev avdtpServiceDelayReporting : Octet := 8

abbrev avdtpCpTypeScmsLsb : Octet := 0x02
abbrev avdtpCpTypeScmsMsb : Octet := 0x00

/-! ## Validation -/

inductive AvdtpError where
  | badPayloadFormat
  | badMediaTransportFormat
  | badRecoveryFormat
  | badRecoveryType
  | badCpFormat
  | badRohcFormat
  | badMultiplexingFormat
  | badServCategory
  | invalidCapabilities
  deriving DecidableEq

inductive Verdict where
  | accepted
  | refused (category : Option Octet) (code : AvdtpError)
  deriving DecidableEq

/-- `has_media_transport` and `has_codec`. -/
structure Seen where
  mediaTransport : Bool
  codec : Bool
  deriving DecidableEq

/-- The checks on one entry, whose data are at the start of `caps`. -/
def checkEntry (ignoreBadServCategory : Bool) (service losc : Octet) (caps : Caps) (capsSize : ℕ)
    (seen : Seen) : Option (Except AvdtpError Seen) :=
  if service = avdtpServiceMediaTransport then
    if losc ≠ 0 then some (.error .badMediaTransportFormat)
    else some (.ok { seen with mediaTransport := true })
  else if service = avdtpServiceReporting then
    if losc ≠ 0 then some (.error .badPayloadFormat) else some (.ok seen)
  else if service = avdtpServiceRecovery then
    if losc ≠ 3 ∨ capsSize < 3 then some (.error .badRecoveryFormat)
    else do
      let recoveryType ← caps[0]?
      if recoveryType ≠ 1 then some (.error .badRecoveryType)
      else do
        let mrws ← caps[1]?
        if mrws < 0x01 ∨ mrws > 0x18 then some (.error .badRecoveryFormat)
        else do
          let mnmp ← caps[2]?
          if mnmp < 0x01 ∨ mnmp > 0x18 then some (.error .badRecoveryFormat) else some (.ok seen)
  else if service = avdtpServiceContentProtection then
    if losc < 2 then some (.error .badCpFormat) else some (.ok seen)
  else if service = avdtpServiceHeaderCompression then
    if losc ≠ 1 then some (.error .badRohcFormat) else some (.ok seen)
  else if service = avdtpServiceMultiplexing then
    if losc < 2 then some (.error .badMultiplexingFormat) else some (.ok seen)
  else if service = avdtpServiceMediaCodec then
    if losc < 2 then some (.error .badPayloadFormat)
    else if seen.codec then some (.error .badPayloadFormat)
    else some (.ok { seen with codec := true })
  else if service = avdtpServiceDelayReporting then
    if losc ≠ 0 then some (.error .badPayloadFormat) else some (.ok seen)
  else if !ignoreBadServCategory then some (.error .badServCategory)
  else some (.ok seen)

/-- The loop over the entries, which has one turn at least. -/
def validateEntries (ignoreBadServCategory : Bool) :
    ℕ → Caps → ℕ → Seen → Option Octet → Option (Except (Option Octet × AvdtpError) Seen)
  | 0, _, _, _, _ => none
  | turns + 1, caps, capsSize, seen, category =>
    if capsSize < 2 then some (.error (category, .badPayloadFormat))
    else do
      let service ← caps[0]?
      let losc ← caps[1]?
      let caps := caps.drop 2
      let capsSize := capsSize - 2
      if losc.toNat > capsSize then some (.error (some service, .badPayloadFormat))
      else do
        match ← checkEntry ignoreBadServCategory service losc caps capsSize seen with
        | .error code => some (.error (some service, code))
        | .ok seen =>
          if capsSize - losc.toNat ≠ 0 then
            validateEntries ignoreBadServCategory turns (caps.drop losc.toNat)
              (capsSize - losc.toNat) seen (some service)
          else some (.ok seen)

/-- `a2dpValidateServiceCaps`. -/
def a2dpValidateServiceCaps (caps : Caps) (capsSize : ℕ)
    (reconfigure onlyCheckStructure ignoreBadServCategory : Bool) : Option Verdict := do
  match ← validateEntries ignoreBadServCategory (capsSize + 1) caps capsSize ⟨false, false⟩ none with
  | .error (category, code) => some (.refused category code)
  | .ok seen =>
    if !onlyCheckStructure then
      if !seen.mediaTransport && !reconfigure || seen.mediaTransport && reconfigure then
        some (.refused (some avdtpServiceMediaTransport) .invalidCapabilities)
      else if !seen.codec then some (.refused (some avdtpServiceMediaCodec) .badPayloadFormat)
      else some .accepted
    else some .accepted

/-! ## Search -/

/-- The loop of `a2dpFindCodecSpecificInformation` with a size. The result is what is returned, and
where the pointer and the size are then. -/
def findCodecSized : ℕ → Caps → ℕ → Option (Bool × Caps × ℕ)
  | 0, _, _ => none
  | turns + 1, caps, capsSize =>
    if capsSize = 0 then some (false, caps, capsSize)
    else do
      let service ← caps[0]?
      let losc ← caps[1]?
      if service = avdtpServiceMediaCodec then some (true, caps, capsSize)
      else if 2 + losc.toNat > capsSize then some (false, caps, capsSize)
      else findCodecSized turns (caps.drop (2 + losc.toNat)) (capsSize - (2 + losc.toNat))

/-- The loop of `a2dpFindCodecSpecificInformation` without a size. -/
def findCodecUnsized : ℕ → Caps → Option (Bool × Caps)
  | 0, _ => none
  | turns + 1, caps => do
    let service ← caps[0]?
    if service ≠ avdtpServiceMediaCodec then do
      let losc ← caps[1]?
      findCodecUnsized turns (caps.drop (2 + losc.toNat))
    else some (true, caps)

/-- `a2dpFindCodecSpecificInformation` with a size. -/
def a2dpFindCodecSpecificInformationSized (caps : Caps) (capsSize : ℕ) : Option (Bool × Caps × ℕ) :=
  findCodecSized (caps.length + 1) caps capsSize

/-- `a2dpFindCodecSpecificInformation` without a size. -/
def a2dpFindCodecSpecificInformation (caps : Caps) : Option (Bool × Caps) :=
  findCodecUnsized (caps.length + 1) caps

/-- `a2dpFindMatchingCodecSpecificInformation`. -/
def a2dpFindMatchingCodecSpecificInformation (localCaps remoteCaps : Caps) (initiating : Bool) :
    Option (Option Caps) := do
  let (foundLocal, localCodec) ← a2dpFindCodecSpecificInformation localCaps
  if !foundLocal then some none
  else do
    let (foundRemote, remoteCodec) ← a2dpFindCodecSpecificInformation remoteCaps
    if !foundRemote then some none
    else do
      let compatible ← areCodecsCompatible localCodec remoteCodec initiating
      some (if compatible then some remoteCodec else none)

/-! ## Services -/

/-- The inner loop of `a2dpAreServicesCategoriesCompatible`, with a 16-bit index. The length of an
entry is read after a match, too. -/
def findService (service : Octet) (localCaps : Caps) (localCapsSize : ℕ) : ℕ → ℕ → Option Bool
  | 0, _ => none
  | turns + 1, j =>
    if j < localCapsSize then do
      let category ← localCaps[j]?
      let losc ← localCaps[j + 1]?
      if category = service then some true
      else findService service localCaps localCapsSize turns ((j + (losc.toNat + 2)) % 65536)
    else some false

/-- The outer loop of `a2dpAreServicesCategoriesCompatible`. -/
def compareServices (localCaps : Caps) (localCapsSize : ℕ) (configCaps : Caps)
    (configCapsSize : ℕ) : ℕ → ℕ → Option (Option Octet)
  | 0, _ => none
  | turns + 1, i =>
    if i < configCapsSize then do
      let service ← configCaps[i]?
      let found ← findService service localCaps localCapsSize (localCaps.length + 1) 0
      if !found then some (some service)
      else do
        let losc ← configCaps[i + 1]?
        compareServices localCaps localCapsSize configCaps configCapsSize turns
          ((i + (losc.toNat + 2)) % 65536)
    else some none

/-- `a2dpAreServicesCategoriesCompatible`: the service that is not supported, if there is one. -/
def a2dpAreServicesCategoriesCompatible (localCaps : Caps) (localCapsSize : ℕ) (configCaps : Caps)
    (configCapsSize : ℕ) : Option (Option Octet) :=
  compareServices localCaps localCapsSize configCaps configCapsSize (configCaps.length + 1) 0

/-- The test of an entry in `a2dpGetContentProtection`. -/
def isScmsEntry (service losc : Octet) (caps : Caps) : Option Bool :=
  if service = avdtpServiceContentProtection ∧ ¬ losc < 2 then do
    let lsb ← caps[2]?
    if lsb = avdtpCpTypeScmsLsb then (caps[3]?).map fun msb => msb == avdtpCpTypeScmsMsb
    else some false
  else some false

/-- The loop of `a2dpGetContentProtection`: where the entry of the protection is. -/
def findContentProtection : ℕ → Caps → ℕ → Option (Option Caps)
  | 0, _, _ => none
  | turns + 1, caps, sizeCaps =>
    if sizeCaps = 0 then some none
    else do
      let service ← caps[0]?
      let losc ← caps[1]?
      let found ← isScmsEntry service losc caps
      if found then some (some caps)
      else if 2 + losc.toNat > sizeCaps then some none
      else findContentProtection turns (caps.drop (2 + losc.toNat)) (sizeCaps - (2 + losc.toNat))

/-- `a2dpGetContentProtection`: the SCMS protection, where its entry is, or none. -/
def a2dpGetContentProtection (caps : Caps) (sizeCaps : ℕ) : Option (Option Caps) :=
  findContentProtection (caps.length + 1) caps sizeCaps

/-- The loop of `a2dpIsServiceSupported`. -/
def isServiceSupported (service : Octet) : ℕ → Caps → ℕ → Option Bool
  | 0, _, _ => none
  | turns + 1, caps, sizeCaps =>
    if sizeCaps = 0 then some false
    else do
      let category ← caps[0]?
      if service = category then some true
      else do
        let losc ← caps[1]?
        if 2 + losc.toNat > sizeCaps then some false
        else
          isServiceSupported service turns (caps.drop (2 + losc.toNat)) (sizeCaps - (2 + losc.toNat))

/-- `a2dpIsServiceSupported`. -/
def a2dpIsServiceSupported (service : Octet) (caps : Caps) (sizeCaps : ℕ) : Option Bool :=
  isServiceSupported service (caps.length + 1) caps sizeCaps

end Mh40.A2dp

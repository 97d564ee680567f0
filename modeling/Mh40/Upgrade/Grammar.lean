import Mh40.Upgrade.HeaderKeys
import Mh40.Upgrade.Sections
import Mh40.Lib.Run

/-!
# What a complete upgrade file consists of

The bytes that the parser takes from a fresh context on, whoever sends them, and what they must be
when it reports the completion.

* `Item`: a main header that passes the check, or a section with its data.
* `Confined`: headers are stored in the header keys only.
* `Complete`: the bytes are a main header, then main headers and sections, then a footer, and every
  section is written.
* `Permitted`: a packet that completes a footer header finds a main header, and one that completes a
  section header does not have the number of a closed section or of one in front of it.
* `sound_of_meets`: with packets that are permitted the parser is sound.
-/

namespace Mh40.Upgrade

open List Option

variable {device : Device} {ctx : PartitionData} {data : List UInt8} {ops : List FlashOp}

/-! ## Statement -/

/-- The headers are stored in the keys `DFU_HEADER_PSKEY_START..DFU_HEADER_PSKEY_END`. -/
def Confined (ops : List FlashOp) : Prop :=
  ∀ key cells, FlashOp.psStore key cells ∈ ops → IsHeaderKey key

/-- A part of an upgrade file: the id with the length, and what follows. -/
inductive Item where
  | header (first body : List UInt8)
  | section (first second data : List UInt8)

/-- The bytes of a part. -/
def Item.bytes : Item → List UInt8
  | .header first body => first ++ body
  | .section first second data => first ++ second ++ data

/-- The id and the length that a part starts with. -/
structure Starts (id : List UInt8) (length : ℕ) (first : List UInt8) : Prop where
  size : first.length = headerFirstPartSize
  id_eq : strncmpEq idFieldSize first id = true
  length_eq : get4BytesFromStream first idFieldSize = some length

/-- A main header that passes the check of the versions, or a section that is completely in the
flash. -/
def Item.Ok (device : Device) (version : Version) (configVersion : ℕ) (flash : Flash) :
    Item → Prop
  | .header first body => Starts headerId body.length first ∧
    ∀ libKeys : LibKeys, libKeys.version = version → libKeys.configVersion = configVersion →
      ∃ versions, checkHeader device libKeys body = some (.ok versions)
  | .section first second data =>
    Starts partitionId (second.length + data.length) first ∧
      second.length = partitionSecondHeaderSize + firstWordSize ∧
      ∃ partNum, get2BytesFromStream second 2 = some partNum ∧
        flash.sectionData partNum = data ∧ flash.firstWord partNum = some (firstWordOf second)

/-- The parser, its last status and the bytes that it was given. -/
structure Reception where
  parser : Parser
  rc : HostErrorCode
  stream : List UInt8

/-- The bytes so far are a main header, main headers and sections, and a footer. -/
def Complete (device : Device) (version : Version) (configVersion : ℕ) (s : Reception) : Prop :=
  ∃ firstHeader body items first signature,
    s.stream = ((Item.header firstHeader body :: items).flatMap Item.bytes) ++ first ++ signature ∧
    (∀ item ∈ Item.header firstHeader body :: items,
      item.Ok device version configVersion s.parser.ctx.flash) ∧
    Starts footerId expectedSignatureSize first ∧ signature.length = expectedSignatureSize ∧
    s.parser.ctx.signature = signature

/-- The headers are where they should be, and the completion is reported for complete files. -/
structure Sound (device : Device) (version : Version) (configVersion : ℕ) (s : Reception) :
    Prop where
  confined : Confined s.parser.ctx.ops
  complete : s.rc = .dataTransferComplete → Complete device version configVersion s

/-- The next packet. -/
def receive (device : Device) (s : Reception) (data : List UInt8) : Option Reception :=
  if s.rc ≠ .success then none
  else (parse device s.parser data).map fun (rc, parser) => ⟨parser, rc, s.stream ++ data⟩

/-- A footer comes behind a main header, and a section has a number that was not passed already. -/
def Permitted (s : Reception) (data : List UInt8) : Prop :=
  let block := s.parser.incompleteData ++ data
  s.parser.ctx.totalReceivedSize + data.length = s.parser.ctx.totalReqSize →
    (s.parser.ctx.state = .generic1stPart → strncmpEq idFieldSize block footerId = true →
      s.parser.ctx.isUpgradeHdrAvailable = true) ∧
    (s.parser.ctx.state = .dataHeader → ∀ partNum ∈ get2BytesFromStream block 2,
      s.parser.ctx.libKeys.lastClosedPartition ≤ partNum)

instance (s : Reception) (data : List UInt8) : Decidable (Permitted s data) := by
  unfold Permitted
  infer_instance

/-! ## Header keys -/

theorem Confined.append {ops' : List FlashOp} (h : Confined ops) (h' : Confined ops') :
    Confined (ops ++ ops') := by
  intro key cells hop
  rcases mem_append.mp hop with hop | hop
  · exact h key cells hop
  · exact h' key cells hop

theorem confined_of_isFlush (h : ∀ op ∈ ops, op.IsFlush) : Confined ops :=
  fun _ _ hop => (h _ hop).elim

theorem confined_saveLibKeys (keys : LibKeys) : Confined [.saveLibKeys keys] := by
  rintro key cells (_ | ⟨_, ⟨⟩⟩)

/-- A piece is stored in the current key. -/
theorem storePiece_frame (hk : IsHeaderKey ctx.dfuHeaderPskey) (hc : Confined ctx.ops)
    (piece : List UInt8) :
    ∃ ops keys, storePiece ctx piece = withKeys ctx ops keys ∧ Confined ops := by
  simp only [storePiece]
  split
  · refine ⟨_, _, rfl, hc.append ?_⟩
    rintro key cells (_ | ⟨_, ⟨⟩⟩)
    exact hk
  · exact ⟨ctx.ops, ctx.flash.psKeys, rfl, hc⟩

theorem nextKey_frame (hk : IsHeaderKey ctx.dfuHeaderPskey) (hc : Confined ctx.ops)
    (piece : List UInt8) :
    ∃ ops keys pskey offset, (nextKey (savePiece ctx piece)).2 =
        withHeader ctx ops keys pskey offset ∧
      Confined ops ∧ ((nextKey (savePiece ctx piece)).1 = .success → IsHeaderKey pskey) := by
  obtain ⟨ops, keys, hs, hops⟩ := storePiece_frame hk hc piece
  unfold nextKey savePiece
  rw [hs]
  dsimp only
  split_ifs with h1 h2
  · exact ⟨ops, keys, _, _, rfl, hops, nofun⟩
  · exact ⟨ops, keys, _, _, rfl, hops, fun _ => ⟨by have := hk.1; omega, by omega⟩⟩
  · exact ⟨ops, keys, _, _, rfl, hops, fun _ => hk⟩

theorem saveRounds_frame (n : ℕ) (hk : IsHeaderKey ctx.dfuHeaderPskey) (hc : Confined ctx.ops)
    (data : List UInt8) :
    ∃ ops keys pskey offset, (saveRounds n ctx data).2 = withHeader ctx ops keys pskey offset ∧
      Confined ops ∧ ((saveRounds n ctx data).1 = .success → IsHeaderKey pskey) := by
  induction n generalizing ctx data with
  | zero => exact ⟨_, _, _, _, rfl, hc, fun _ => hk⟩
  | succ n ih =>
    obtain ⟨ops, keys, pskey, offset, hs, hops, hkey⟩ :=
      nextKey_frame hk hc (data.take (dataWriteSize ctx data.length))
    rw [saveRounds]
    dsimp only
    by_cases hrc : (nextKey (savePiece ctx (data.take (dataWriteSize ctx data.length)))).1 =
        .success
    · rw [andThen, if_pos hrc, hs]
      split_ifs
      · exact ⟨ops, keys, pskey, offset, rfl, hops, fun _ => hkey hrc⟩
      · exact ih (hkey hrc) hops _
    · rw [andThen, if_neg hrc]
      exact ⟨ops, keys, pskey, offset, hs, hops, hkey⟩

/-- **Headers stay in the header keys.** -/
theorem saveHeaderInPSKeys_frame (hk : IsHeaderKey ctx.dfuHeaderPskey) (hc : Confined ctx.ops)
    (data : List UInt8) :
    ∃ ops keys pskey offset,
      (saveHeaderInPSKeys ctx data).2 = withHeader ctx ops keys pskey offset ∧
      Confined ops ∧ ((saveHeaderInPSKeys ctx data).1 = .success → IsHeaderKey pskey) :=
  saveRounds_frame _ hk hc data

/-! ## Invariant -/

variable {version : Version} {configVersion : ℕ} {items : List Item} {ctx' : PartitionData}

/-- The parts so far, each in the flash, and where the next headers go. -/
structure Built (device : Device) (version : Version) (configVersion : ℕ) (items : List Item)
    (ctx : PartitionData) : Prop where
  confined : Confined ctx.ops
  version_eq : ctx.libKeys.version = version
  configVersion_eq : ctx.libKeys.configVersion = configVersion
  notOver : ctx.isDataXferComplete = false
  ok : ∀ item ∈ items, item.Ok device version configVersion ctx.flash
  closed : ∀ first second data partNum, Item.section first second data ∈ items →
    get2BytesFromStream second 2 = some partNum → partNum < ctx.libKeys.lastClosedPartition
  head : items = [] ∨ ∃ first body rest, items = .header first body :: rest
  headerKey : items ≠ [] → IsHeaderKey ctx.dfuHeaderPskey
  unavailable : ctx.isUpgradeHdrAvailable = false → items = [] ∧ ctx.fwPartitionNum = 0
  unsigned : ctx.state ≠ .footer → ctx.signature = [] ∧ ctx.signatureReceived = 0

/-- The sections from the last closed one on are blank, but for an open one. -/
def Blank (ctx : PartitionData) (isOpen : ℕ → Prop) : Prop :=
  ∀ partNum, ctx.libKeys.lastClosedPartition ≤ partNum → ¬ isOpen partNum →
    ctx.flash.sectionData partNum = []

/-- Where the parser is in the file: `items` are complete and `stream` is what it was given. -/
inductive Phase (items : List Item) (ctx : PartitionData) (incompleteData stream : List UInt8) :
    Prop where
  | /-- The file is for the case: nothing more is requested. -/
    over (state : ctx.state = .generic1stPart) (size : ctx.totalReqSize = 0)
      (none : incompleteData = [])
  | first (state : ctx.state = .generic1stPart) (size : ctx.totalReqSize = headerFirstPartSize)
      (received : ctx.totalReceivedSize = incompleteData.length)
      (stream_eq : stream = items.flatMap Item.bytes ++ incompleteData)
      (closed : ctx.partitionHdl = none) (blank : Blank ctx fun _ => False)
      (available : ctx.isUpgradeHdrAvailable = true → items ≠ [])
  | header (state : ctx.state = .header) (first : List UInt8)
      (starts : Starts headerId ctx.totalReqSize first)
      (received : ctx.totalReceivedSize = incompleteData.length)
      (stream_eq : stream = items.flatMap Item.bytes ++ first ++ incompleteData)
      (closed : ctx.partitionHdl = none) (blank : Blank ctx fun _ => False)
      (headerKey : IsHeaderKey ctx.dfuHeaderPskey)
      (available : ctx.isUpgradeHdrAvailable = true)
  | dataHeader (state : ctx.state = .dataHeader) (first : List UInt8)
      (starts : Starts partitionId (ctx.partitionLength + partitionSecondHeaderSize) first)
      (size : ctx.totalReqSize = partitionSecondHeaderSize + firstWordSize)
      (received : ctx.totalReceivedSize = incompleteData.length)
      (stream_eq : stream = items.flatMap Item.bytes ++ first ++ incompleteData)
      (closed : ctx.partitionHdl = none) (blank : Blank ctx fun _ => False)
      (started : items ≠ [])
  | data (state : ctx.state = .data) (first second data : List UInt8) (sink : Sink)
      (starts : Starts partitionId (second.length + ctx.totalReqSize) first)
      (second_length : second.length = partitionSecondHeaderSize + firstWordSize)
      (received : ctx.totalReceivedSize = data.length) (complete : incompleteData = [])
      (stream_eq : stream = items.flatMap Item.bytes ++ first ++ second ++ data)
      (opened : ctx.partitionHdl = some sink)
      (partNum_eq : get2BytesFromStream second 2 = some sink.partNum)
      (firstWord_eq : sink.firstWord = firstWordOf second)
      (fwPartitionNum_eq : ctx.fwPartitionNum = sink.partNum)
      (position_eq : sink.position = data.length)
      (data_eq : ctx.flash.sectionData sink.partNum = data)
      (fresh : ctx.libKeys.lastClosedPartition ≤ sink.partNum)
      (blank : Blank ctx fun partNum => partNum = sink.partNum) (started : items ≠ [])
  | footer (state : ctx.state = .footer) (first : List UInt8)
      (starts : Starts footerId expectedSignatureSize first)
      (size : ctx.totalReqSize = expectedSignatureSize)
      (received : ctx.totalReceivedSize = ctx.signature.length) (complete : incompleteData = [])
      (signature : ctx.signatureReceived = ctx.signature.length)
      (stream_eq : stream = items.flatMap Item.bytes ++ first ++ ctx.signature)
      (started : items ≠ [])

/-- What the parts so far depend on. -/
theorem Built.of_eq (h : Built device version configVersion items ctx) (hops : Confined ctx'.ops)
    (hkey : items ≠ [] → IsHeaderKey ctx'.dfuHeaderPskey)
    (hav : ctx'.isUpgradeHdrAvailable = false →
      ctx.isUpgradeHdrAvailable = false ∧ ctx'.fwPartitionNum = ctx.fwPartitionNum)
    (hunsigned : ctx'.state ≠ .footer → ctx'.signature = [] ∧ ctx'.signatureReceived = 0)
    (hversion : ctx'.libKeys.version = ctx.libKeys.version)
    (hconfig : ctx'.libKeys.configVersion = ctx.libKeys.configVersion)
    (hlast : ctx.libKeys.lastClosedPartition ≤ ctx'.libKeys.lastClosedPartition)
    (hover : ctx'.isDataXferComplete = ctx.isDataXferComplete)
    (hflash : ∀ partNum, partNum < ctx.libKeys.lastClosedPartition →
      ctx'.flash.sectionData partNum = ctx.flash.sectionData partNum ∧
        ctx'.flash.firstWord partNum = ctx.flash.firstWord partNum) :
    Built device version configVersion items ctx' where
  confined := hops
  version_eq := hversion.trans h.version_eq
  configVersion_eq := hconfig.trans h.configVersion_eq
  notOver := hover.trans h.notOver
  ok := by
    intro item hi
    have hok := h.ok item hi
    cases item with
    | header first body => exact hok
    | «section» first second data =>
      obtain ⟨h1, h2, partNum, h3, h4, h5⟩ := hok
      obtain ⟨hs, hf⟩ := hflash partNum (h.closed first second data partNum hi h3)
      exact ⟨h1, h2, partNum, h3, hs.trans h4, hf.trans h5⟩
  closed := fun first second data partNum hi hp =>
    (h.closed first second data partNum hi hp).trans_le hlast
  head := h.head
  headerKey := hkey
  unavailable := fun he => by
    obtain ⟨h1, h2⟩ := hav he
    rw [h2]
    exact h.unavailable h1
  unsigned := hunsigned

/-- One more part. -/
theorem Built.snoc (h : Built device version configVersion items ctx) {item : Item}
    (hok : item.Ok device version configVersion ctx.flash)
    (hclosed : ∀ first second data partNum, item = .section first second data →
      get2BytesFromStream second 2 = some partNum → partNum < ctx.libKeys.lastClosedPartition)
    (hhead : items = [] → ∃ first body, item = .header first body)
    (hkey : IsHeaderKey ctx.dfuHeaderPskey) (hav : ctx.isUpgradeHdrAvailable = true) :
    Built device version configVersion (items ++ [item]) ctx where
  confined := h.confined
  version_eq := h.version_eq
  configVersion_eq := h.configVersion_eq
  notOver := h.notOver
  ok := by
    intro item' hi
    rcases mem_append.mp hi with hi | hi
    · exact h.ok item' hi
    · rw [mem_singleton.mp hi]
      exact hok
  closed := by
    intro first second data partNum hi hp
    rcases mem_append.mp hi with hi | hi
    · exact h.closed first second data partNum hi hp
    · exact hclosed first second data partNum (mem_singleton.mp hi).symm hp
  head := by
    right
    rcases h.head with rfl | ⟨first, body, rest, rfl⟩
    · obtain ⟨first, body, rfl⟩ := hhead rfl
      exact ⟨first, body, [], rfl⟩
    · exact ⟨first, body, rest ++ [item], rfl⟩
  headerKey := fun _ => hkey
  unavailable := fun he => by
    rw [hav] at he
    cases he
  unsigned := h.unsigned

/-- What a handler leaves behind: the completion only for a complete file, and after a success the
parser is somewhere in the file. -/
structure Outcome (device : Device) (version : Version) (configVersion : ℕ)
    (stream : List UInt8) (r : HostErrorCode × Parser) : Prop where
  confined : Confined r.2.ctx.ops
  complete : r.1 = .dataTransferComplete →
    Complete device version configVersion ⟨r.2, r.1, stream⟩
  phase : r.1 = .success → ∃ items, Built device version configVersion items r.2.ctx ∧
    Phase items r.2.ctx r.2.incompleteData stream

/-- The same of a handler that takes all of its block. -/
abbrev Handled (device : Device) (version : Version) (configVersion : ℕ) (stream : List UInt8)
    (r : HostErrorCode × PartitionData) : Prop :=
  Outcome device version configVersion stream (r.1, ⟨r.2, []⟩)

/-- A refusal. -/
theorem Outcome.of_error {stream : List UInt8} {rc : HostErrorCode} {parser : Parser}
    (h : Confined parser.ctx.ops) (hrc : rc ≠ .success ∧ rc ≠ .dataTransferComplete) :
    Outcome device version configVersion stream (rc, parser) :=
  ⟨h, fun he => absurd he hrc.2, fun he => absurd he hrc.1⟩

/-! ## Headers -/

variable {stream incompleteData : List UInt8} {next : PartitionData → HostErrorCode × PartitionData}
  {r : HostErrorCode × PartitionData} {first : List UInt8} {length : ℕ}

theorem saveRounds_rc (n : ℕ) (ctx : PartitionData) (data : List UInt8) :
    (saveRounds n ctx data).1 = .success ∨ (saveRounds n ctx data).1 = .noMemory := by
  induction n generalizing ctx data with
  | zero => exact .inl rfl
  | succ n ih =>
    rw [saveRounds]
    dsimp only
    generalize data.take (dataWriteSize ctx data.length) = piece
    have hrc : (nextKey (savePiece ctx piece)).1 = .success ∨
        (nextKey (savePiece ctx piece)).1 = .noMemory := by
      unfold nextKey
      dsimp only
      split_ifs <;> simp
    rcases hrc with hrc | hrc
    · rw [andThen, if_pos hrc]
      split_ifs
      · exact .inl rfl
      · exact ih _ _
    · rw [andThen, if_neg (by simp [hrc])]
      exact .inr hrc

/-- A handler that stores its header first. -/
theorem outcome_save (hk : IsHeaderKey ctx.dfuHeaderPskey) (hc : Confined ctx.ops)
    (data : List UInt8)
    (hnext : ∀ ops keys pskey offset, Confined ops → IsHeaderKey pskey →
      Handled device version configVersion stream (next (withHeader ctx ops keys pskey offset))) :
    Handled device version configVersion stream (andThen (saveHeaderInPSKeys ctx data) next) := by
  obtain ⟨ops, keys, pskey, offset, hs, hops, hkey⟩ := saveHeaderInPSKeys_frame hk hc data
  rcases saveRounds_rc (data.length + 1) ctx data with hrc | hrc
  · have hrc' : (saveHeaderInPSKeys ctx data).1 = .success := hrc
    rw [andThen, if_pos hrc', hs]
    exact hnext ops keys pskey offset hops (hkey hrc')
  · have hrc' : (saveHeaderInPSKeys ctx data).1 = .noMemory := hrc
    rw [andThen, if_neg (by simp [hrc'])]
    refine Outcome.of_error ?_ (by simp [hrc'])
    rw [hs]
    exact hops

theorem isHeaderKey_start : IsHeaderKey dfuHeaderPskeyStart := ⟨le_rfl, by decide⟩

section

variable (hb : Built device version configVersion items ctx)
include hb

section

variable (hstate : ctx.state = .generic1stPart)
include hstate

theorem outcome_startHeader (hclosed : ctx.partitionHdl = none) (hblank : Blank ctx fun _ => False)
    (hstarts : Starts headerId length data) (hstream : stream = items.flatMap Item.bytes ++ data) :
    Handled device version configVersion stream (startHeader ctx data length) := by
  unfold startHeader
  dsimp only
  split_ifs
  · exact Outcome.of_error hb.confined ⟨nofun, nofun⟩
  · apply outcome_save
    · exact isHeaderKey_start
    · exact hb.confined
    intro ops keys pskey offset hops hkey
    have hops' : Confined (ops ++ [.saveLibKeys { ctx.libKeys with dfuPartitionNum := 0 }]) :=
      hops.append (confined_saveLibKeys _)
    refine ⟨hops', nofun, fun _ => ⟨items, ?_, ?_⟩⟩
    · exact hb.of_eq hops' (fun _ => hkey) nofun (fun _ => hb.unsigned (by rw [hstate]; nofun))
        rfl rfl le_rfl rfl (fun _ _ => ⟨rfl, rfl⟩)
    · exact .header rfl data hstarts rfl (by simp [hstream]) hclosed hblank hkey rfl

theorem outcome_startCase (data : List UInt8) (length : ℕ) :
    Handled device version configVersion stream (startCase ctx data length) := by
  unfold startCase
  dsimp only
  apply outcome_save
  · exact isHeaderKey_start
  · exact hb.confined
  intro ops keys pskey offset hops hkey
  refine ⟨hops, nofun, fun _ => ⟨items, ?_, .over hstate rfl rfl⟩⟩
  exact hb.of_eq hops (fun _ => hkey) (fun h => ⟨h, rfl⟩)
    (fun _ => hb.unsigned (by rw [hstate]; nofun)) rfl rfl le_rfl rfl (fun _ _ => ⟨rfl, rfl⟩)

theorem outcome_startPartition (hclosed : ctx.partitionHdl = none)
    (hblank : Blank ctx fun _ => False) (hav : ctx.isUpgradeHdrAvailable = true → items ≠ [])
    (hstarts : Starts partitionId length data) (hstream : stream = items.flatMap Item.bytes ++ data) :
    Handled device version configVersion stream (startPartition ctx data length) := by
  unfold startPartition
  split_ifs with h1 h2
  · exact Outcome.of_error hb.confined ⟨nofun, nofun⟩
  · exact Outcome.of_error hb.confined ⟨nofun, nofun⟩
  · have hitems : items ≠ [] := by
      cases ha : ctx.isUpgradeHdrAvailable with
      | true => exact hav ha
      | false => simp [ha, (hb.unavailable ha).2] at h1
    refine outcome_save (hb.headerKey hitems) hb.confined data ?_
    intro ops keys pskey offset hops hkey
    refine ⟨hops, nofun, fun _ => ⟨items, ?_, ?_⟩⟩
    · exact hb.of_eq hops (fun _ => hkey) (fun h => ⟨h, rfl⟩)
        (fun _ => hb.unsigned (by rw [hstate]; nofun)) rfl rfl le_rfl rfl (fun _ _ => ⟨rfl, rfl⟩)
    · refine .dataHeader rfl data ?_ rfl rfl (by simp [hstream]) hclosed hblank hitems
      have hlen : length - partitionSecondHeaderSize + partitionSecondHeaderSize = length := by
        unfold partitionSecondHeaderSize firstWordSize at *
        omega
      show Starts partitionId (length - partitionSecondHeaderSize + partitionSecondHeaderSize) data
      rwa [hlen]

theorem outcome_startFooter (hitems : items ≠ []) (hstarts : Starts footerId length data)
    (hstream : stream = items.flatMap Item.bytes ++ data) :
    Handled device version configVersion stream (startFooter ctx data length) := by
  unfold startFooter
  split_ifs with h1
  · exact Outcome.of_error hb.confined ⟨nofun, nofun⟩
  · rw [not_not] at h1
    subst h1
    refine outcome_save (hb.headerKey hitems) hb.confined data ?_
    intro ops keys pskey offset hops hkey
    refine ⟨hops, nofun, fun _ => ⟨items, ?_, ?_⟩⟩
    · exact hb.of_eq hops (fun _ => hkey) (fun h => ⟨h, rfl⟩) (fun h => absurd rfl h)
        rfl rfl le_rfl rfl (fun _ _ => ⟨rfl, rfl⟩)
    · obtain ⟨hsig, hrec⟩ := hb.unsigned (by rw [hstate]; nofun)
      refine .footer rfl data hstarts rfl ?_ rfl ?_ ?_ hitems
      · show 0 = ctx.signature.length
        rw [hsig]
        rfl
      · show ctx.signatureReceived = ctx.signature.length
        rw [hsig, hrec]
        rfl
      · show stream = _ ++ data ++ ctx.signature
        rw [hsig, append_nil, hstream]

/-- The first part of a header. -/
theorem outcome_generic1stPart (hclosed : ctx.partitionHdl = none)
    (hblank : Blank ctx fun _ => False) (hav : ctx.isUpgradeHdrAvailable = true → items ≠ [])
    (hlen : data.length = headerFirstPartSize)
    (hperm : strncmpEq idFieldSize data footerId = true → ctx.isUpgradeHdrAvailable = true)
    (hstream : stream = items.flatMap Item.bytes ++ data)
    (hr : handleGeneric1stPartState device ctx data = some r) :
    Handled device version configVersion stream r := by
  unfold handleGeneric1stPartState at hr
  rw [if_neg (by omega)] at hr
  obtain ⟨length, hl, rfl⟩ := map_eq_some_iff.mp hr
  split_ifs with h1 h2 h3 h4
  · exact outcome_startHeader hb hstate hclosed hblank ⟨hlen, h1, hl⟩ hstream
  · exact outcome_startCase hb hstate data length
  · exact outcome_startPartition hb hstate hclosed hblank hav ⟨hlen, h3, hl⟩ hstream
  · exact outcome_startFooter hb hstate (hav (hperm h4)) ⟨hlen, h4, hl⟩ hstream
  · exact Outcome.of_error hb.confined ⟨nofun, nofun⟩

end

end

/-- The check depends on the versions of the device. -/
theorem checkHeader_congr {libKeys libKeys' : LibKeys} (hv : libKeys'.version = libKeys.version)
    (hc : libKeys'.configVersion = libKeys.configVersion) (data : List UInt8) :
    checkHeader device libKeys' data = checkHeader device libKeys data := by
  unfold checkHeader
  rw [hv, hc]

theorem checkHeader_ne_success {libKeys : LibKeys} {rc : HostErrorCode}
    (h : checkHeader device libKeys data = some (.error rc)) :
    rc ≠ .success ∧ rc ≠ .dataTransferComplete := by
  unfold checkHeader at h
  simp only [bind_eq_bind, Option.pure_def] at h
  rcases ite_eq_iff.mp h with ⟨-, h⟩ | ⟨-, h⟩
  · cases h; decide
  rcases ite_eq_iff.mp h with ⟨-, h⟩ | ⟨-, h⟩
  · cases h; decide
  obtain ⟨major, -, h⟩ := bind_eq_some_iff.mp h
  obtain ⟨minor, -, h⟩ := bind_eq_some_iff.mp h
  obtain ⟨compatibleVersions, -, h⟩ := bind_eq_some_iff.mp h
  rcases ite_eq_iff.mp h with ⟨-, h⟩ | ⟨-, h⟩
  · cases h; decide
  obtain ⟨psconfigVersions, -, h⟩ := bind_eq_some_iff.mp h
  rcases ite_eq_iff.mp h with ⟨-, h⟩ | ⟨-, h⟩
  · cases h; decide
  obtain ⟨found, -, h⟩ := bind_eq_some_iff.mp h
  rcases ite_eq_iff.mp h with ⟨-, h⟩ | ⟨-, h⟩
  · cases h; decide
  obtain ⟨newPSVersion, -, h⟩ := bind_eq_some_iff.mp h
  rcases ite_eq_iff.mp h with ⟨-, h⟩ | ⟨-, h⟩
  · cases h
  obtain ⟨found, -, h⟩ := bind_eq_some_iff.mp h
  rcases ite_eq_iff.mp h with ⟨-, h⟩ | ⟨-, h⟩
  · cases h; decide
  · cases h

/-- The rest of a main header. -/
theorem outcome_header (hb : Built device version configVersion items ctx)
    (hclosed : ctx.partitionHdl = none) (hblank : Blank ctx fun _ => False)
    (hkey : IsHeaderKey ctx.dfuHeaderPskey) (hav : ctx.isUpgradeHdrAvailable = true)
    (hstate : ctx.state = .header) (hstarts : Starts headerId data.length first)
    (hstream : stream = items.flatMap Item.bytes ++ first ++ data)
    (hr : handleHeaderState device ctx data = some r) :
    Handled device version configVersion stream r := by
  unfold handleHeaderState at hr
  obtain ⟨result, hcheck, rfl⟩ := map_eq_some_iff.mp hr
  cases result with
  | error rc => exact Outcome.of_error hb.confined (checkHeader_ne_success hcheck)
  | ok versions =>
    obtain ⟨v, psVersion⟩ := versions
    have hunsigned := hb.unsigned (by rw [hstate]; nofun)
    dsimp only [savePSKeys]
    apply outcome_save
    · exact hkey
    · exact hb.confined.append (confined_saveLibKeys _)
    intro ops keys pskey offset hops hkey'
    refine ⟨hops, nofun, fun _ => ⟨items ++ [.header first data], ?_, ?_⟩⟩
    · apply Built.snoc
      · exact hb.of_eq hops (fun _ => hkey') (fun h => ⟨h, rfl⟩) (fun _ => hunsigned)
          rfl rfl le_rfl rfl (fun _ _ => ⟨rfl, rfl⟩)
      · refine ⟨hstarts, fun libKeys hv hc => ⟨(v, psVersion), ?_⟩⟩
        rw [checkHeader_congr (hv.trans hb.version_eq.symm) (hc.trans hb.configVersion_eq.symm)]
        exact hcheck
      · nofun
      · exact fun _ => ⟨first, data, rfl⟩
      · exact hkey'
      · exact hav
    · exact .first rfl rfl rfl (by simp [hstream, Item.bytes]) hclosed hblank (fun _ => by simp)

/-! ## Sections -/

variable {sink : Sink}

/-- The context once a section is closed. -/
abbrev withClosed (ctx : PartitionData) (sink : Sink) : PartitionData :=
  let libKeys := { ctx.libKeys with lastClosedPartition := ctx.fwPartitionNum + 1 }
  { ctx with
    partitionHdl := none
    libKeys
    flash.firstWord := Function.update ctx.flash.firstWord sink.partNum (some sink.firstWord)
    flash.libKeys := libKeys
    ops := ctx.ops ++ [.sinkClose sink.partNum sink.firstWord] ++ [.saveLibKeys libKeys] }

theorem closeSection_some (device : Device) (h : ctx.partitionHdl = some sink) :
    (((closeSection device ctx).1 = .partitionCloseFailedPsSpace ∨
        (closeSection device ctx).1 = .partitionCloseFailed) ∧
      (closeSection device ctx).2 = { ctx with partitionHdl := none }) ∨
    closeSection device ctx = (.success, withClosed ctx sink) := by
  unfold closeSection partitionClose
  rw [h]
  dsimp only
  split_ifs
  · exact .inl ⟨.inl rfl, rfl⟩
  · exact .inl ⟨.inr rfl, rfl⟩
  · exact .inr rfl

section

variable (hb : Built device version configVersion items ctx)
include hb

/-- The close of a section, and what follows. -/
theorem outcome_closeSection (hhdl : ctx.partitionHdl = some sink)
    (hnext : Handled device version configVersion stream (next (withClosed ctx sink))) :
    Handled device version configVersion stream (andThen (closeSection device ctx) next) := by
  rcases closeSection_some device hhdl with ⟨hrc, hctx⟩ | hok
  · have hne : (closeSection device ctx).1 ≠ .success ∧
        (closeSection device ctx).1 ≠ .dataTransferComplete := by
      rcases hrc with hrc | hrc <;> rw [hrc] <;> exact ⟨nofun, nofun⟩
    rw [andThen, if_neg hne.1]
    refine Outcome.of_error ?_ hne
    rw [hctx]
    exact hb.confined
  · rw [andThen, hok, if_pos rfl]
    exact hnext

section

variable (sink) {first second : List UInt8} (hitems : items ≠ [])
  (hstarts : Starts partitionId (second.length + data.length) first)
  (hsecond : second.length = partitionSecondHeaderSize + firstWordSize)
  (hnum : get2BytesFromStream second 2 = some sink.partNum)
  (hword : sink.firstWord = firstWordOf second) (hfw : ctx.fwPartitionNum = sink.partNum)
  (hdata : ctx.flash.sectionData sink.partNum = data)
  (hfresh : ctx.libKeys.lastClosedPartition ≤ sink.partNum)
  (hblank : Blank ctx fun partNum => partNum = sink.partNum)
include hitems hstarts hsecond hnum hword hfw hdata hfresh hblank

/-- A section with all of its data, once it is closed. -/
theorem Built.close (hstate : ctx.state ≠ .footer) :
    Built device version configVersion (items ++ [.section first second data])
      (withClosed ctx sink) ∧ Blank (withClosed ctx sink) fun _ => False := by
  have hops : Confined (withClosed ctx sink).ops := by
    refine (hb.confined.append ?_).append (confined_saveLibKeys _)
    rintro key cells (_ | ⟨_, ⟨⟩⟩)
  have hav : ctx.isUpgradeHdrAvailable = true := by
    cases ha : ctx.isUpgradeHdrAvailable with
    | true => rfl
    | false => exact absurd (hb.unavailable ha).1 hitems
  refine ⟨?_, ?_⟩
  · apply Built.snoc
    · refine hb.of_eq hops (fun _ => hb.headerKey hitems) (fun h => ⟨h, rfl⟩)
        (fun _ => hb.unsigned hstate) rfl rfl ?_ rfl (fun partNum hlt => ⟨rfl, ?_⟩)
      · show ctx.libKeys.lastClosedPartition ≤ ctx.fwPartitionNum + 1
        omega
      · exact Function.update_of_ne (by omega) _ _
    · refine ⟨hstarts, hsecond, sink.partNum, hnum, hdata, ?_⟩
      rw [← hword]
      exact Function.update_self ..
    · rintro f s d partNum ⟨⟩ hp
      rw [hnum] at hp
      cases hp
      show sink.partNum < ctx.fwPartitionNum + 1
      omega
    · exact fun h => absurd h hitems
    · exact hb.headerKey hitems
    · exact hav
  · intro partNum hle _
    have hle' : ctx.fwPartitionNum + 1 ≤ partNum := hle
    exact hblank partNum (by omega) (by omega)

/-- The last data of a section: it is closed, and the next header is requested. -/
theorem outcome_finishSection (hstate : ctx.state = .generic1stPart)
    (hsize : ctx.totalReqSize = headerFirstPartSize) (hreceived : ctx.totalReceivedSize = 0)
    (hstream : stream = items.flatMap Item.bytes ++ first ++ second ++ data)
    (hopen : ctx.partitionHdl = some sink) :
    Handled device version configVersion stream
      (andThen (closeSection device ctx) fun ctx =>
        (.success, { ctx with openNextPartition := true })) := by
  have hunsigned := hb.unsigned (by rw [hstate]; nofun)
  obtain ⟨hbc, hblankc⟩ := hb.close sink hitems hstarts hsecond hnum hword hfw hdata hfresh
    hblank (by rw [hstate]; nofun)
  refine outcome_closeSection hb hopen ?_
  refine ⟨hbc.confined, nofun, fun _ => ⟨items ++ [.section first second data], ?_, ?_⟩⟩
  · exact hbc.of_eq hbc.confined hbc.headerKey (fun h => ⟨h, rfl⟩) (fun _ => hunsigned)
      rfl rfl le_rfl rfl (fun _ _ => ⟨rfl, rfl⟩)
  · exact .first hstate hsize hreceived (by simp [hstream, Item.bytes]) rfl hblankc
      (fun _ => by simp)

end

/-- The header of a section, once it is stored. -/
theorem outcome_enterSection (hstate : ctx.state = .dataHeader) (hclosed : ctx.partitionHdl = none)
    (hblank : Blank ctx fun _ => False) (hitems : items ≠ []) {first second : List UInt8}
    (hstarts : Starts partitionId (ctx.partitionLength + partitionSecondHeaderSize) first)
    (hsecond : second.length = partitionSecondHeaderSize + firstWordSize)
    (hstream : stream = items.flatMap Item.bytes ++ first ++ second) {partNum : ℕ}
    (hnum : get2BytesFromStream second 2 = some partNum)
    (hfresh : ctx.libKeys.lastClosedPartition ≤ partNum) :
    Handled device version configVersion stream
      (enterSection device ctx partNum (firstWordOf second)) := by
  have hunsigned := hb.unsigned (by rw [hstate]; nofun)
  have hposition : sinkPosition (ctx.flash.sectionData partNum) = 0 := by
    rw [hblank partNum hfresh id]
    rfl
  unfold enterSection validateUpdate
  split_ifs with hvalid
  swap
  · exact Outcome.of_error hb.confined ⟨nofun, nofun⟩
  dsimp only
  rw [if_neg (by simp), if_neg (by omega)]
  split_ifs with hsize
  · exact Outcome.of_error hb.confined ⟨nofun, nofun⟩
  unfold openSection partitionOpen
  dsimp only
  rw [hclosed]
  dsimp only
  cases hopen : device.streamGetSink partNum (firstWordOf second) with
  | false => exact Outcome.of_error hb.confined ⟨nofun, nofun⟩
  | true =>
    simp only [if_true, hposition]
    unfold startSection
    dsimp only
    rw [Nat.zero_add]
    have hopened : Blank ctx fun n => n = partNum := fun n hn _ => hblank n hn id
    split_ifs with hlt heq
    · refine ⟨hb.confined, nofun, fun _ => ⟨items, ?_, ?_⟩⟩
      · refine hb.of_eq hb.confined (fun _ => hb.headerKey hitems) (fun h => ?_)
          (fun _ => hunsigned) rfl rfl le_rfl rfl (fun _ _ => ⟨rfl, rfl⟩)
        exact absurd (hb.unavailable h).1 hitems
      · refine .data rfl first second [] ⟨partNum, firstWordOf second, 0⟩ ?_ hsecond rfl rfl
          (by simp [hstream]) rfl hnum rfl rfl rfl (hblank partNum hfresh id) hfresh hopened hitems
        have hlen : second.length + (ctx.partitionLength - 0 - firstWordSize) =
            ctx.partitionLength + partitionSecondHeaderSize := by
          unfold firstWordSize at *
          omega
        show Starts partitionId (second.length + (ctx.partitionLength - 0 - firstWordSize)) first
        rwa [hlen]
    · -- no data but the first word
      have hb' : Built device version configVersion items { ctx with
          partitionMap := ctx.partitionMap ||| 1 <<< partNum
          partitionHdl := some ⟨partNum, firstWordOf second, 0⟩
          fwPartitionNum := partNum } := by
        refine hb.of_eq hb.confined (fun _ => hb.headerKey hitems) (fun h => ?_)
          (fun _ => hunsigned) rfl rfl le_rfl rfl (fun _ _ => ⟨rfl, rfl⟩)
        exact absurd (hb.unavailable h).1 hitems
      have hlen : second.length + ([] : List UInt8).length =
          ctx.partitionLength + partitionSecondHeaderSize := by
        rw [hsecond, ← heq, length_nil]
        rfl
      obtain ⟨hbc, hblankc⟩ := hb'.close ⟨partNum, firstWordOf second, 0⟩ hitems
        (hlen ▸ hstarts) hsecond hnum rfl rfl (hblank partNum hfresh id) hfresh hopened
        (by rw [hstate]; nofun)
      refine outcome_closeSection hb' rfl ?_
      refine ⟨hbc.confined, nofun, fun _ => ⟨items ++ [.section first second []], ?_, ?_⟩⟩
      · exact hbc.of_eq hbc.confined hbc.headerKey (fun h => ⟨h, rfl⟩) (fun _ => hunsigned)
          rfl rfl le_rfl rfl (fun _ _ => ⟨rfl, rfl⟩)
      · exact .first rfl rfl rfl (by simp [hstream, Item.bytes]) rfl hblankc (fun _ => by simp)
    · exact Outcome.of_error hb.confined ⟨nofun, nofun⟩

/-- The rest of the header of a section. -/
theorem outcome_dataHeader (hstate : ctx.state = .dataHeader) (hclosed : ctx.partitionHdl = none)
    (hblank : Blank ctx fun _ => False) (hitems : items ≠ [])
    (hstarts : Starts partitionId (ctx.partitionLength + partitionSecondHeaderSize) first)
    (hlen : data.length = partitionSecondHeaderSize + firstWordSize)
    (hstream : stream = items.flatMap Item.bytes ++ first ++ data)
    (hperm : ∀ partNum, get2BytesFromStream data 2 = some partNum →
      ctx.libKeys.lastClosedPartition ≤ partNum)
    (hr : handleDataHeaderState device ctx data = some r) :
    Handled device version configVersion stream r := by
  have hunsigned := hb.unsigned (by rw [hstate]; nofun)
  unfold handleDataHeaderState at hr
  rw [if_neg (by omega)] at hr
  simp only [Option.pure_def, bind_eq_bind] at hr
  obtain ⟨sqifNum, -, hr⟩ := bind_eq_some_iff.mp hr
  obtain ⟨partNum, hnum, hr⟩ := bind_eq_some_iff.mp hr
  split_ifs at hr
  · cases hr
    exact Outcome.of_error hb.confined ⟨nofun, nofun⟩
  · cases hr
    exact Outcome.of_error hb.confined ⟨nofun, nofun⟩
  · rw [take_of_length_le hlen.le] at hr
    cases hr
    refine outcome_save (hb.headerKey hitems) hb.confined data ?_
    intro ops keys pskey offset hops hkey
    apply outcome_enterSection
    · exact hb.of_eq hops (fun _ => hkey) (fun h => ⟨h, rfl⟩) (fun _ => hunsigned)
        rfl rfl le_rfl rfl (fun _ _ => ⟨rfl, rfl⟩)
    · exact hstate
    · exact hclosed
    · exact hblank
    · exact hitems
    · exact hstarts
    · exact hlen
    · exact hstream
    · exact hnum
    · exact hperm partNum hnum

/-- Some data of a section. -/
theorem outcome_data (hstate : ctx.state = .data) {first second old : List UInt8}
    (hstarts : Starts partitionId (second.length + ctx.totalReqSize) first)
    (hsecond : second.length = partitionSecondHeaderSize + firstWordSize)
    (hreceived : ctx.totalReceivedSize = old.length + data.length)
    (hstream : stream = items.flatMap Item.bytes ++ first ++ second ++ (old ++ data))
    (hopen : ctx.partitionHdl = some sink) (hnum : get2BytesFromStream second 2 = some sink.partNum)
    (hword : sink.firstWord = firstWordOf second) (hfw : ctx.fwPartitionNum = sink.partNum)
    (hposition : sink.position = old.length) (hdata : ctx.flash.sectionData sink.partNum = old)
    (hfresh : ctx.libKeys.lastClosedPartition ≤ sink.partNum)
    (hblank : Blank ctx fun partNum => partNum = sink.partNum) (hitems : items ≠ [])
    (reqComplete : Bool)
    (hcomplete : reqComplete = decide (ctx.totalReceivedSize = ctx.totalReqSize)) :
    Handled device version configVersion stream (handleDataState device ctx data reqComplete) := by
  have hunsigned := hb.unsigned (by rw [hstate]; nofun)
  obtain ⟨ops, hops, hwrite⟩ := partitionWrite_some device hopen data
  rw [hdata, hposition, written_length] at hwrite
  have hops' : Confined (ctx.ops ++ ops) := hb.confined.append (confined_of_isFlush hops)
  -- the section that is open is not one of the parts so far
  have hflash : ∀ partNum, partNum < ctx.libKeys.lastClosedPartition →
      Function.update ctx.flash.sectionData sink.partNum (old ++ data) partNum =
        ctx.flash.sectionData partNum := fun partNum hlt =>
    Function.update_of_ne (by omega) _ _
  have hblank' : ∀ partNum, ctx.libKeys.lastClosedPartition ≤ partNum → ¬ partNum = sink.partNum →
      Function.update ctx.flash.sectionData sink.partNum (old ++ data) partNum = [] :=
    fun partNum hle hne => by rw [Function.update_of_ne hne]; exact hblank partNum hle hne
  unfold handleDataState
  rw [hwrite]
  dsimp only
  rw [if_neg (by simp)]
  cases reqComplete with
  | false =>
    rw [if_neg Bool.false_ne_true]
    refine ⟨hops', nofun, fun _ => ⟨items, ?_, ?_⟩⟩
    · exact hb.of_eq hops' (fun _ => hb.headerKey hitems) (fun h => ⟨h, rfl⟩) (fun _ => hunsigned)
        rfl rfl le_rfl rfl (fun partNum hlt => ⟨hflash partNum hlt, rfl⟩)
    · exact .data hstate first second (old ++ data) _ hstarts hsecond (by simpa using hreceived)
        rfl hstream rfl hnum hword hfw (by simp) (Function.update_self ..) hfresh
        hblank' hitems
  | true =>
    rw [if_pos rfl]
    have hall : ctx.totalReceivedSize = ctx.totalReqSize := of_decide_eq_true hcomplete.symm
    have hlen : second.length + ctx.totalReqSize = second.length + (old ++ data).length := by
      rw [length_append]
      omega
    apply outcome_finishSection ⟨sink.partNum, sink.firstWord, old.length + data.length⟩
    · exact hb.of_eq hops' (fun _ => hb.headerKey hitems) (fun h => ⟨h, rfl⟩) (fun _ => hunsigned)
        rfl rfl le_rfl rfl (fun partNum hlt => ⟨hflash partNum hlt, rfl⟩)
    · exact hitems
    · exact hlen ▸ hstarts
    · exact hsecond
    · exact hnum
    · exact hword
    · exact hfw
    · exact Function.update_self ..
    · exact hfresh
    · exact hblank'
    · rfl
    · rfl
    · rfl
    · exact hstream
    · rfl

/-! ## Footer -/

/-- Some bytes of the signature. -/
theorem outcome_footer (hstate : ctx.state = .footer)
    (hstarts : Starts footerId expectedSignatureSize first)
    (hsize : ctx.totalReqSize = expectedSignatureSize)
    (hreceived : ctx.totalReceivedSize = ctx.signature.length + data.length)
    (hsignature : ctx.signatureReceived = ctx.signature.length)
    (hstream : stream = items.flatMap Item.bytes ++ first ++ (ctx.signature ++ data))
    (hitems : items ≠ []) (reqComplete : Bool)
    (hcomplete : reqComplete = decide (ctx.totalReceivedSize = ctx.totalReqSize)) :
    Handled device version configVersion stream (handleFooterState ctx data reqComplete) := by
  have hsig : ctx.signature.take ctx.signatureReceived ++ data ++
      ctx.signature.drop (ctx.signatureReceived + data.length) = ctx.signature ++ data := by
    rw [hsignature, take_length, drop_eq_nil_of_le (by omega), append_nil]
  unfold handleFooterState saveFooter
  rw [if_neg (show ¬ ctx.isDataXferComplete = true by rw [hb.notOver]; nofun)]
  dsimp only
  rw [hsig]
  apply outcome_save
  · exact hb.headerKey hitems
  · exact hb.confined
  intro ops keys pskey offset hops hkey
  have hbuilt : ∀ signatureReceived, Built device version configVersion items
      { withHeader ctx ops keys pskey offset with
        signature := ctx.signature ++ data, signatureReceived } := fun _ =>
    hb.of_eq hops (fun _ => hkey) (fun h => ⟨h, rfl⟩) (fun h => absurd hstate h)
      rfl rfl le_rfl rfl (fun _ _ => ⟨rfl, rfl⟩)
  cases reqComplete with
  | false =>
    rw [if_neg Bool.false_ne_true]
    refine ⟨hops, nofun, fun _ => ⟨items, hbuilt _, ?_⟩⟩
    refine .footer hstate first hstarts hsize ?_ rfl ?_ hstream hitems
    · show ctx.totalReceivedSize = (ctx.signature ++ data).length
      rw [length_append, hreceived]
    · show ctx.signatureReceived + data.length = (ctx.signature ++ data).length
      rw [length_append, hsignature]
  | true =>
    rw [if_pos rfl]
    have hall : ctx.totalReceivedSize = ctx.totalReqSize := of_decide_eq_true hcomplete.symm
    refine ⟨hops, fun _ => ?_, nofun⟩
    rcases hb.head with hnil | ⟨f, body, rest, rfl⟩
    · exact absurd hnil hitems
    · refine ⟨f, body, rest, first, ctx.signature ++ data, hstream, (hbuilt 0).ok, hstarts, ?_, rfl⟩
      rw [length_append]
      omega

end

/-! ## Packets -/

/-- What a packet does. -/
theorem parse_cases {r : HostErrorCode × Parser}
    (hr : parse device ⟨ctx, incompleteData⟩ data = some r) :
    (r.1 ≠ .success ∧ r.1 ≠ .dataTransferComplete ∧ r.2.ctx = received ctx data.length) ∨
    (ctx.totalReceivedSize + data.length < ctx.totalReqSize ∧
      (r = (.success, ⟨received ctx data.length, incompleteData ++ data⟩) ∨
        incompleteData = [] ∧
          parseCompleteData device ⟨received ctx data.length, []⟩ data false = some r)) ∨
    (ctx.totalReceivedSize + data.length = ctx.totalReqSize ∧
      ∃ q, parseComplete device (received ctx data.length) (incompleteData ++ data) = some q ∧
        r = (q.1, ⟨q.2, []⟩)) := by
  have htotal : (received ctx data.length).totalReceivedSize =
      ctx.totalReceivedSize + data.length := rfl
  have hreq : (received ctx data.length).totalReqSize = ctx.totalReqSize := rfl
  unfold parse at hr
  dsimp only at hr
  split_ifs at hr with hover hinc
  · cases hr
    exact .inl ⟨nofun, nofun, rfl⟩
  · unfold parseIncomplete storeIncomplete at hr
    dsimp only at hr
    split_ifs at hr with hbig
    · cases hr
      exact .inl ⟨nofun, nofun, rfl⟩
    · dsimp only at hr
      by_cases hall : ctx.totalReceivedSize + data.length = ctx.totalReqSize
      · rw [if_pos (by rw [htotal, hreq]; exact hall)] at hr
        simp only [parseCompleteData, if_true, bind_eq_bind, Option.pure_def] at hr
        obtain ⟨p, hp, hr⟩ := bind_eq_some_iff.mp hr
        obtain ⟨q, hq, rfl⟩ := map_eq_some_iff.mp hp
        cases hr
        exact .inr (.inr ⟨hall, q, hq, rfl⟩)
      · rw [if_neg (by rw [htotal, hreq]; exact hall)] at hr
        cases hr
        exact .inr (.inl ⟨by omega, .inl rfl⟩)
  · have hnil : incompleteData = [] := not_not.mp hinc
    subst hnil
    rw [nil_append]
    by_cases hall : ctx.totalReceivedSize + data.length = ctx.totalReqSize
    · simp only [parseCompleteData, htotal, hreq, hall, decide_true, if_true] at hr
      obtain ⟨q, hq, rfl⟩ := map_eq_some_iff.mp hr
      exact .inr (.inr ⟨hall, q, hq, rfl⟩)
    · rw [htotal, hreq, decide_eq_false hall] at hr
      exact .inr (.inl ⟨by omega, .inr ⟨rfl, hr⟩⟩)

/-- What a packet does in a state that needs its whole block. -/
theorem parse_header_cases (hstate : ctx.state ≠ .data ∧ ctx.state ≠ .footer)
    {r : HostErrorCode × Parser} (hr : parse device ⟨ctx, incompleteData⟩ data = some r) :
    (r.1 ≠ .success ∧ r.1 ≠ .dataTransferComplete ∧ r.2.ctx = received ctx data.length) ∨
    (ctx.totalReceivedSize + data.length < ctx.totalReqSize ∧
      r = (.success, ⟨received ctx data.length, incompleteData ++ data⟩)) ∨
    (ctx.totalReceivedSize + data.length = ctx.totalReqSize ∧
      ∃ q, parseComplete device (received ctx data.length) (incompleteData ++ data) = some q ∧
        r = (q.1, ⟨q.2, []⟩)) := by
  rcases parse_cases hr with herror | ⟨hlt, heq | ⟨rfl, hpart⟩⟩ | hall
  · exact .inl herror
  · exact .inr (.inl ⟨hlt, heq⟩)
  · simp only [parseCompleteData, Bool.false_eq_true, if_false] at hpart
    have hstore : some (storeIncomplete ⟨received ctx data.length, []⟩ data) = some r := by
      rw [← hpart]
      split
      · exact absurd ‹_› hstate.1
      · exact absurd ‹_› hstate.2
      · rfl
    unfold storeIncomplete at hstore
    split_ifs at hstore
    · cases hstore
      exact .inl ⟨nofun, nofun, rfl⟩
    · cases hstore
      exact .inr (.inl ⟨hlt, rfl⟩)
  · exact .inr (.inr hall)

/-- What a packet does while data is streamed. -/
theorem parse_stream_cases (hstate : ctx.state = .data ∨ ctx.state = .footer)
    {r : HostErrorCode × Parser} (hr : parse device ⟨ctx, []⟩ data = some r) :
    (r.1 ≠ .success ∧ r.1 ≠ .dataTransferComplete ∧ r.2.ctx = received ctx data.length) ∨
    (∃ reqComplete, reqComplete = decide ((received ctx data.length).totalReceivedSize =
        (received ctx data.length).totalReqSize) ∧
      ((ctx.state = .data ∧
          r = ((handleDataState device (received ctx data.length) data reqComplete).1,
            ⟨(handleDataState device (received ctx data.length) data reqComplete).2, []⟩)) ∨
        (ctx.state = .footer ∧
          r = ((handleFooterState (received ctx data.length) data reqComplete).1,
            ⟨(handleFooterState (received ctx data.length) data reqComplete).2, []⟩)))) := by
  have hstate' : (received ctx data.length).state = ctx.state := rfl
  unfold parse at hr
  dsimp only at hr
  split_ifs at hr with hover hinc
  · cases hr
    exact .inl ⟨nofun, nofun, rfl⟩
  · exact absurd rfl hinc
  · refine .inr ⟨_, rfl, ?_⟩
    by_cases hall : (received ctx data.length).totalReceivedSize =
        (received ctx data.length).totalReqSize
    · simp only [parseCompleteData, parseComplete, hall, decide_true, if_true, hstate'] at hr ⊢
      rcases hstate with hs | hs <;> rw [hs] at hr <;> cases hr
      · exact .inl ⟨hs, rfl⟩
      · exact .inr ⟨hs, rfl⟩
    · simp only [parseCompleteData, hall, decide_false, Bool.false_eq_true, if_false, hstate']
        at hr ⊢
      rcases hstate with hs | hs <;> rw [hs] at hr <;> cases hr
      · exact .inl ⟨hs, rfl⟩
      · exact .inr ⟨hs, rfl⟩

/-- **One packet.** -/
theorem outcome_parse (hb : Built device version configVersion items ctx)
    (hphase : Phase items ctx incompleteData stream)
    (hperm : Permitted ⟨⟨ctx, incompleteData⟩, .success, stream⟩ data)
    {r : HostErrorCode × Parser} (hr : parse device ⟨ctx, incompleteData⟩ data = some r) :
    Outcome device version configVersion (stream ++ data) r := by
  have hb' : Built device version configVersion items (received ctx data.length) :=
    hb.of_eq hb.confined hb.headerKey (fun h => ⟨h, rfl⟩) hb.unsigned rfl rfl le_rfl rfl
      (fun _ _ => ⟨rfl, rfl⟩)
  have herror : ∀ {rc : HostErrorCode} {parser : Parser}, rc ≠ .success →
      rc ≠ .dataTransferComplete → parser.ctx = received ctx data.length →
        Outcome device version configVersion (stream ++ data) (rc, parser) := by
    intro rc parser h1 h2 h3
    refine Outcome.of_error ?_ ⟨h1, h2⟩
    rw [h3]
    exact hb'.confined
  cases hphase with
  | «over» state size none =>
    rcases parse_header_cases (by rw [state]; exact ⟨nofun, nofun⟩) hr with
      ⟨h1, h2, h3⟩ | ⟨hlt, -⟩ | ⟨heq, q, hq, rfl⟩
    · exact herror h1 h2 h3
    · omega
    · have hnil : data = [] := length_eq_zero_iff.mp (by omega)
      have hs : (received ctx data.length).state = .generic1stPart := state
      rw [parseComplete, hs] at hq
      subst hnil
      subst none
      cases hq
      exact Outcome.of_error hb'.confined ⟨nofun, nofun⟩
  | first state size hrec stream_eq closed blank available =>
    have hs : (received ctx data.length).state = .generic1stPart := state
    rcases parse_header_cases (by rw [state]; exact ⟨nofun, nofun⟩) hr with
      ⟨h1, h2, h3⟩ | ⟨hlt, rfl⟩ | ⟨heq, q, hq, rfl⟩
    · exact herror h1 h2 h3
    · refine ⟨hb'.confined, nofun, fun _ => ⟨items, hb', .first state size ?_ ?_ closed blank
        available⟩⟩
      · show ctx.totalReceivedSize + data.length = _
        rw [hrec, length_append]
      · rw [stream_eq, append_assoc]
    · rw [parseComplete, hs] at hq
      have hlen : (incompleteData ++ data).length = headerFirstPartSize := by
        rw [length_append]
        omega
      refine outcome_generic1stPart hb' state closed blank available hlen ((hperm heq).1 state) ?_ hq
      rw [stream_eq, append_assoc]
  | header state first starts hrec stream_eq closed blank headerKey available =>
    have hs : (received ctx data.length).state = .header := state
    rcases parse_header_cases (by rw [state]; exact ⟨nofun, nofun⟩) hr with
      ⟨h1, h2, h3⟩ | ⟨hlt, rfl⟩ | ⟨heq, q, hq, rfl⟩
    · exact herror h1 h2 h3
    · refine ⟨hb'.confined, nofun, fun _ => ⟨items, hb', .header state first starts ?_ ?_ closed
        blank headerKey available⟩⟩
      · show ctx.totalReceivedSize + data.length = _
        rw [hrec, length_append]
      · rw [stream_eq, append_assoc]
    · rw [parseComplete, hs] at hq
      have hlen : (incompleteData ++ data).length = ctx.totalReqSize := by
        rw [length_append]
        omega
      refine outcome_header hb' closed blank headerKey available state (hlen ▸ starts) ?_ hq
      rw [stream_eq, append_assoc]
  | dataHeader state first starts size hrec stream_eq closed blank started =>
    have hs : (received ctx data.length).state = .dataHeader := state
    rcases parse_header_cases (by rw [state]; exact ⟨nofun, nofun⟩) hr with
      ⟨h1, h2, h3⟩ | ⟨hlt, rfl⟩ | ⟨heq, q, hq, rfl⟩
    · exact herror h1 h2 h3
    · refine ⟨hb'.confined, nofun, fun _ => ⟨items, hb', .dataHeader state first starts size ?_ ?_
        closed blank started⟩⟩
      · show ctx.totalReceivedSize + data.length = _
        rw [hrec, length_append]
      · rw [stream_eq, append_assoc]
    · rw [parseComplete, hs] at hq
      have hlen : (incompleteData ++ data).length = partitionSecondHeaderSize + firstWordSize := by
        rw [length_append]
        omega
      refine outcome_dataHeader hb' state closed blank started starts hlen ?_
        ((hperm heq).2 state) hq
      rw [stream_eq, append_assoc]
  | data state first second old sink starts second_length hrec complete stream_eq opened partNum_eq
      firstWord_eq fwPartitionNum_eq position_eq data_eq fresh blank started =>
    subst complete
    rcases parse_stream_cases (.inl state) hr with ⟨h1, h2, h3⟩ |
      ⟨reqComplete, hcomplete, ⟨-, rfl⟩ | ⟨hs, -⟩⟩
    · exact herror h1 h2 h3
    · refine outcome_data hb' state starts second_length ?_ ?_ opened partNum_eq firstWord_eq
        fwPartitionNum_eq position_eq data_eq fresh blank started reqComplete hcomplete
      · show ctx.totalReceivedSize + data.length = _
        rw [hrec]
      · rw [stream_eq, append_assoc]
    · rw [state] at hs
      cases hs
  | footer state first starts size hrec complete signature stream_eq started =>
    subst complete
    rcases parse_stream_cases (.inr state) hr with ⟨h1, h2, h3⟩ |
      ⟨reqComplete, hcomplete, ⟨hs, -⟩ | ⟨-, rfl⟩⟩
    · exact herror h1 h2 h3
    · rw [state] at hs
      cases hs
    · refine outcome_footer hb' state starts size ?_ signature ?_ started reqComplete hcomplete
      · show ctx.totalReceivedSize + data.length = _
        rw [hrec]
        rfl
      · rw [stream_eq, append_assoc]
        rfl

/-! ## Runs -/

/-- The parser of a fresh upgrade before the first packet. -/
def freshReception (version : Version) (configVersion : ℕ) (signingMode : UInt8)
    (keys : ℕ → List Cell) : Reception :=
  ⟨fresh version configVersion signingMode keys, .success, []⟩

/-- The parser is somewhere in the file, or done. -/
def Kept (device : Device) (version : Version) (configVersion : ℕ) (s : Reception) : Prop :=
  Outcome device version configVersion s.stream (s.rc, s.parser)

theorem Kept.sound {s : Reception} (h : Kept device version configVersion s) :
    Sound device version configVersion s := ⟨h.confined, h.complete⟩

theorem kept_fresh (device : Device) (version : Version) (configVersion : ℕ) (signingMode : UInt8)
    (keys : ℕ → List Cell) : Kept device version configVersion
      (freshReception version configVersion signingMode keys) := by
  refine ⟨nofun, nofun, fun _ => ⟨[], ?_, ?_⟩⟩
  · exact ⟨nofun, rfl, rfl, rfl, nofun, nofun, .inl rfl, nofun, fun _ => ⟨rfl, rfl⟩,
      fun _ => ⟨rfl, rfl⟩⟩
  · exact .first rfl rfl rfl rfl rfl (fun _ _ _ => rfl) nofun

theorem kept_receive (s : Reception) (data : List UInt8) (s' : Reception)
    (h : Kept device version configVersion s) (hp : Permitted s data)
    (hs : receive device s data = some s') : Kept device version configVersion s' := by
  unfold receive at hs
  split_ifs at hs with hrc
  rw [not_not] at hrc
  obtain ⟨r, hr, rfl⟩ := map_eq_some_iff.mp hs
  obtain ⟨items, hb, hphase⟩ := h.phase hrc
  exact outcome_parse hb hphase hp hr

/-- **With packets that are permitted the parser is sound in every state.** -/
theorem sound_of_meets (device : Device) (version : Version) (configVersion : ℕ)
    (signingMode : UInt8) (keys : ℕ → List Cell) (packets : List (List UInt8))
    (hm : Lib.Meets (receive device) Permitted
      (freshReception version configVersion signingMode keys) packets) :
    Lib.Throughout (receive device) (Sound device version configVersion)
      (freshReception version configVersion signingMode keys) packets := by
  intro ks t hks ht
  exact (Lib.invariant_of_meets kept_receive (kept_fresh device version configVersion signingMode
    keys) (hm.of_prefix hks) ht).sound

/-- A device whose sections are large and whose streams and stores work. -/
def sampleDevice : Device where
  devVariant := []
  isCaseDfuSupported := false
  maxRequestSize := 0
  imageSize := fun _ => 1000
  streamGetSink := fun _ _ => true
  sinkClose := fun _ => true
  psSpaceForCriticalOperations := fun _ => true
  sinkSlack := fun _ => 100
  sinkSlack_pos := fun _ => by decide

/-- The footer of a file, in two packets. -/
def footerPackets : List (List UInt8) := [footerId ++ [0, 0, 1, 0], List.replicate 256 1]

/-- A file with one section. -/
def samplePackets : List (List UInt8) :=
  [headerId ++ [0, 0, 0, 24],
    [1, 2, 3, 4, 5, 6, 7, 8, 0, 1, 0, 2, 0, 1, 0, 9, 0, 8, 0, 7, 0, 0, 0, 1],
    partitionId ++ [0, 0, 0, 11], [0, 0, 0, 2, 9, 9, 9, 9], [5], [6, 7]] ++ footerPackets

theorem complete_samplePackets : ∃ s, Lib.run (receive sampleDevice)
    (freshReception ⟨9, 8⟩ 7 1 fun _ => []) samplePackets = some s ∧
      Complete sampleDevice ⟨9, 8⟩ 7 s := by
  have hrun : ((Lib.run (receive sampleDevice) (freshReception ⟨9, 8⟩ 7 1 fun _ => [])
      samplePackets).map Reception.rc) = some .dataTransferComplete := by decide +kernel
  obtain ⟨s, hs, hrc⟩ := Option.map_eq_some_iff.mp hrun
  have hsound := sound_of_meets sampleDevice ⟨9, 8⟩ 7 1 (fun _ => []) samplePackets
    (by decide +kernel)
  exact ⟨s, hs, (hsound samplePackets s List.prefix_rfl hs).complete hrc⟩

/-- Whether an operation stores a PS key. -/
def FlashOp.stores (key : ℕ) : FlashOp → Bool
  | .psStore key' _ => key' = key
  | _ => false

/-- A footer alone is complete, and its header is stored in the PS key 0. -/
theorem not_confined_footerPackets : ∃ s, Lib.run (receive sampleDevice)
    (freshReception ⟨9, 8⟩ 7 1 fun _ => []) footerPackets = some s ∧
      s.rc = .dataTransferComplete ∧ ¬ Confined s.parser.ctx.ops := by
  have hrun : ((Lib.run (receive sampleDevice) (freshReception ⟨9, 8⟩ 7 1 fun _ => [])
      footerPackets).map fun s => (s.rc, s.parser.ctx.ops.any (FlashOp.stores 0))) =
        some (.dataTransferComplete, true) := by decide +kernel
  obtain ⟨s, hs, he⟩ := Option.map_eq_some_iff.mp hrun
  obtain ⟨hrc, hany⟩ := Prod.mk.inj he
  refine ⟨s, hs, hrc, fun hc => ?_⟩
  obtain ⟨op, hop, hstores⟩ := List.any_eq_true.mp hany
  cases op with
  | psStore key cells =>
    obtain rfl : key = 0 := of_decide_eq_true hstores
    exact absurd (hc 0 cells hop) (by decide)
  | saveLibKeys | sinkFlush | sinkClose => cases hstores

end Mh40.Upgrade

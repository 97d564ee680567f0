import Mh40.Upgrade.Grammar

/-!
# The position of the host in the file

A host that keeps one position in the file, 0 at the start and after a reconnect, and answers a
request by skipping its offset and sending as many bytes as it asks for.

* `Link`: the parser, the position that the host sends from, how much of the request is left, and
  the position of the byte that the parser means to get next.
* `partitionDataInit`: `UpgradePartitionDataInit`, with the erase done at once.
* `InPlace`: the two positions are the same, and something is left of the request.
* `Permitted`: a block that is requested in chunks has the offset 0; a section does not have all of
  its data before it is closed; and the link is lost before the first byte when requests have a
  limit, and else while nothing was passed over, or between two blocks when the parser starts over.
* `inPlace_of_meets`: with permitted events the two positions are the same in every state.
-/

namespace Mh40.Upgrade.HostFile

open Option Option

variable {device : Device} {ctx ctx' : PartitionData} {data : List UInt8} {file : List UInt8}
  {l : Link}

/-- The parser and its host. -/
structure Link where
  parser : Parser
  rc : HostErrorCode
  /-- The position in the file of the next byte that the host sends. -/
  cursor : ℕ
  /-- How many bytes of the request the host has not sent yet. -/
  outstanding : ℕ
  /-- The position in the file of the next byte for the parser. -/
  truePosition : ℕ
  /-- So far nothing of the file was passed over, and no byte was received before the parser started
  over. -/
  straight : Bool

/-- A packet of the host, or a link loss with the reconnect after it. -/
inductive Event where
  | packet (size : ℕ)
  | reconnect

/-- How many bytes of a section the parser passes over once it has the header: those that are in
the flash already. -/
def passedOver (ctx ctx' : PartitionData) : ℕ :=
  if ctx.state = .dataHeader ∧ ctx'.state ≠ .dataHeader then
    ctx.partitionLength - firstWordSize - (if ctx'.state = .data then ctx'.totalReqSize else 0)
  else 0

/-- The request after a packet, if there is one. -/
def nextRequest (device : Device) (l : Link) : Link :=
  let (size, ctx) := getNextReqSize device l.parser.ctx
  let l := { l with parser.ctx := ctx }
  if size = 0 then l
  else { l with cursor := l.cursor + l.outstanding + ctx.offset, outstanding := size }

/-- The next `size` bytes of the file go to the parser. -/
def packet (device : Device) (file : List UInt8) (l : Link) (size : ℕ) : Option Link :=
  if size = 0 ∨ l.outstanding < size ∨ file.length < l.cursor + size then none
  else (parse device l.parser ((file.drop l.cursor).take size)).map fun (rc, parser) =>
    let l : Link := {
      parser, rc
      cursor := l.cursor + size
      outstanding := l.outstanding - size
      truePosition := l.truePosition + size + passedOver l.parser.ctx parser.ctx
      straight := l.straight && passedOver l.parser.ctx parser.ctx = 0 }
    if rc = .success then nextRequest device l else l

/-- Whether the parser goes on from where it was, rather than start over. -/
def resumes (ctx : PartitionData) : Bool := ctx.libKeys.stateOfPartitions = .upgrading

/-- `UpgradePartitionDataInit`. -/
def partitionDataInit (ctx : PartitionData) : PartitionData :=
  if resumes ctx then
    if ctx.isDataXferComplete ∧ ctx.totalReqSize = ctx.totalReceivedSize then
      let dfuFileOffset := (ctx.dfuFileOffset + 2 ^ 32 - ctx.partitionLength) % 2 ^ 32
      requestData { ctx with dfuFileOffset } ctx.partitionLength dfuFileOffset
    else if ctx.newReqSize = 0 then
      requestData ctx (ctx.totalReqSize - ctx.totalReceivedSize) ctx.dfuFileOffset
    else ctx
  else
    let ctx := { ctx with fwPartitionNum := 0, flash.sectionData := fun _ => [] }
    if ctx.newReqSize = 0 then
      requestData { ctx with state := .generic1stPart } headerFirstPartSize ctx.offset
    else requestData ctx ctx.newReqSize ctx.offset

/-- A reconnect: the host is at the start of the file again, and gets a request whatever its size.
A parser that starts over means to get the start of the file, behind the bytes that it holds. -/
def reconnect (device : Device) (l : Link) : Link :=
  let (size, ctx) := getNextReqSize device (partitionDataInit l.parser.ctx)
  { l with
    parser.ctx := ctx
    cursor := ctx.offset
    outstanding := size
    truePosition :=
      if resumes l.parser.ctx ∨ l.parser.ctx.newReqSize ≠ 0 then l.truePosition
      else l.parser.incompleteData.length
    straight := l.straight && (resumes l.parser.ctx || l.truePosition = 0) }

/-- What happens at an event. Nothing does after an error or the completion, or when the file is
for the case. -/
def step (device : Device) (file : List UInt8) (l : Link) (event : Event) : Option Link :=
  if l.rc ≠ .success ∨ l.parser.ctx.caseDfuStatus = .inProgress then none
  else match event with
    | .packet size => packet device file l size
    | .reconnect => some (reconnect device l)

/-- The next byte of the host is the one that the parser means to get, and there is one. -/
def InPlace (l : Link) : Prop :=
  l.rc = .success → l.parser.ctx.caseDfuStatus ≠ .inProgress →
    l.cursor = l.truePosition ∧ 0 < l.outstanding

/-- The position of a section that is opened. -/
def sectionPosition (ctx : PartitionData) (partNum : ℕ) : ℕ :=
  match ctx.partitionHdl with
  | none => sinkPosition (ctx.flash.sectionData partNum)
  | some sink => sink.position

/-- When an event leaves the host in place. -/
def Permitted (device : Device) (file : List UInt8) (l : Link) : Event → Prop
  | .packet size =>
    let ctx := l.parser.ctx
    let block := l.parser.incompleteData ++ (file.drop l.cursor).take size
    -- another chunk of the same block
    (size = l.outstanding → ctx.totalReceivedSize + size < ctx.totalReqSize → ctx.offset = 0) ∧
    -- the header of a section that is not skipped
    (ctx.state = .dataHeader → ctx.totalReceivedSize + size = ctx.totalReqSize →
      ∀ partNum ∈ get2BytesFromStream block 2, ctx.libKeys.lastClosedPartition ≤ partNum →
        sectionPosition ctx partNum + firstWordSize ≠ ctx.partitionLength)
  | .reconnect =>
    if device.maxRequestSize ≠ 0 then l.truePosition = 0
    else if resumes l.parser.ctx then l.straight = true ∧ l.truePosition < 2 ^ 32
    else l.parser.incompleteData = [] ∧ l.parser.ctx.offset = 0

instance (device : Device) (file : List UInt8) (l : Link) (event : Event) :
    Decidable (Permitted device file l event) := by
  cases event <;> unfold Permitted <;> infer_instance

/-! ## What the handlers do to a request -/

/-- Nothing that belongs to the request changes. -/
structure SameRequest (ctx ctx' : PartitionData) : Prop where
  newReqSize : ctx'.newReqSize = ctx.newReqSize
  totalReqSize : ctx'.totalReqSize = ctx.totalReqSize
  totalReceivedSize : ctx'.totalReceivedSize = ctx.totalReceivedSize
  chunkReceivedSize : ctx'.chunkReceivedSize = ctx.chunkReceivedSize
  offset : ctx'.offset = ctx.offset
  state : ctx'.state = ctx.state
  isDataXferComplete : ctx'.isDataXferComplete = ctx.isDataXferComplete
  dfuFileOffset : ctx'.dfuFileOffset = ctx.dfuFileOffset

/-- There is a new request, with the offset that passes over what is in the flash already; or the
file is for the case. -/
structure NewRequest (ctx ctx' : PartitionData) : Prop where
  newReqSize : ctx'.newReqSize = ctx'.totalReqSize
  totalReceivedSize : ctx'.totalReceivedSize = 0
  chunkReceivedSize : ctx'.chunkReceivedSize = 0
  isDataXferComplete : ctx'.isDataXferComplete = ctx.isDataXferComplete
  dfuFileOffset : ctx'.dfuFileOffset = ctx.dfuFileOffset
  next : ctx'.caseDfuStatus = .inProgress ∨
    0 < ctx'.totalReqSize ∧ ctx'.offset = passedOver ctx ctx'

theorem andThen_success {r : HostErrorCode × PartitionData}
    {next : PartitionData → HostErrorCode × PartitionData} (h : (andThen r next).1 = .success) :
    andThen r next = next r.2 := by
  unfold andThen at h ⊢
  split_ifs at h ⊢ with hr
  · rfl
  · exact absurd h hr

theorem andThen_saved {saved : PartitionData} {block : List UInt8}
    {next : PartitionData → HostErrorCode × PartitionData}
    (hr : andThen (saveHeaderInPSKeys saved block) next = (.success, ctx')) :
    ∃ ops keys pskey offset, next (withHeader saved ops keys pskey offset) = (.success, ctx') := by
  obtain ⟨ops, keys, pskey, offset, hs⟩ := saveHeaderInPSKeys_eq saved block
  rw [andThen_success (congrArg Prod.fst hr), hs] at hr
  exact ⟨ops, keys, pskey, offset, hr⟩

theorem newRequest_generic1stPart (hstate : ctx.state = .generic1stPart)
    (hr : handleGeneric1stPartState device ctx data = some (.success, ctx')) :
    NewRequest ctx ctx' := by
  have hpassed : ∀ ctx', passedOver ctx ctx' = 0 := by
    intro ctx'
    unfold passedOver
    rw [if_neg (by rw [hstate]; rintro ⟨⟨⟩, -⟩)]
  unfold handleGeneric1stPartState at hr
  by_cases hshort : data.length < headerFirstPartSize
  · rw [if_pos hshort] at hr
    cases hr
  rw [if_neg hshort] at hr
  obtain ⟨length, -, hr⟩ := map_eq_some_iff.mp hr
  split_ifs at hr
  · unfold startHeader at hr
    dsimp only at hr
    split_ifs at hr with hlen
    · cases hr
    obtain ⟨ops, keys, pskey, offset, hr⟩ := andThen_saved hr
    cases hr
    refine ⟨rfl, rfl, rfl, rfl, rfl, .inr ⟨?_, (hpassed _).symm⟩⟩
    unfold headerMinSecondPartSize at hlen
    show 0 < length
    omega
  · unfold startCase at hr
    dsimp only at hr
    obtain ⟨ops, keys, pskey, offset, hr⟩ := andThen_saved hr
    cases hr
    exact ⟨rfl, rfl, rfl, rfl, rfl, .inl rfl⟩
  · unfold startPartition at hr
    split_ifs at hr
    · cases hr
    · cases hr
    obtain ⟨ops, keys, pskey, offset, hr⟩ := andThen_saved hr
    cases hr
    exact ⟨rfl, rfl, rfl, rfl, rfl, .inr ⟨Nat.succ_pos 7, (hpassed _).symm⟩⟩
  · unfold startFooter at hr
    split_ifs at hr with hlen
    · cases hr
    obtain ⟨ops, keys, pskey, offset, hr⟩ := andThen_saved hr
    cases hr
    refine ⟨rfl, rfl, rfl, rfl, rfl, .inr ⟨?_, (hpassed _).symm⟩⟩
    unfold expectedSignatureSize at hlen
    show 0 < length
    omega
  · cases hr

theorem newRequest_header (hstate : ctx.state = .header)
    (hr : handleHeaderState device ctx data = some (.success, ctx')) : NewRequest ctx ctx' := by
  unfold handleHeaderState at hr
  obtain ⟨result, hcheck, hr⟩ := map_eq_some_iff.mp hr
  cases result with
  | error rc =>
    cases hr
    exact absurd rfl (checkHeader_ne_success hcheck).1
  | ok versions =>
    obtain ⟨version, psVersion⟩ := versions
    dsimp only at hr
    obtain ⟨ops, keys, pskey, offset, hr⟩ := andThen_saved hr
    cases hr
    refine ⟨rfl, rfl, rfl, rfl, rfl, .inr ⟨Nat.succ_pos 11, ?_⟩⟩
    unfold passedOver
    rw [if_neg (by rw [hstate]; rintro ⟨⟨⟩, -⟩)]
    rfl

section

variable (hstate : ctx.state = .dataHeader)
include hstate

/-- A section that does not have all of its data yet. -/
theorem newRequest_startSection {ctx₁ : PartitionData}
    (hlength : ctx₁.partitionLength = ctx.partitionLength)
    (hover : ctx₁.isDataXferComplete = ctx.isDataXferComplete)
    (hfile : ctx₁.dfuFileOffset = ctx.dfuFileOffset) {offset : ℕ}
    (hoffset : offset + firstWordSize ≠ ctx.partitionLength)
    (hr : startSection device ctx₁ offset = (.success, ctx')) : NewRequest ctx ctx' := by
  unfold startSection at hr
  dsimp only at hr
  rw [hlength] at hr
  split_ifs at hr with hlt
  swap
  · cases hr
  cases hr
  refine ⟨rfl, rfl, rfl, hover, hfile, .inr ⟨?_, ?_⟩⟩
  · show 0 < ctx.partitionLength - offset - firstWordSize
    omega
  · unfold passedOver
    rw [if_pos ⟨hstate, nofun⟩, if_pos rfl]
    show offset = ctx.partitionLength - firstWordSize -
      (ctx.partitionLength - offset - firstWordSize)
    omega

/-- The header of a section: what is in the flash already is passed over. -/
theorem newRequest_enterSection {partNum firstWord : ℕ}
    (hposition : ctx.libKeys.lastClosedPartition ≤ partNum →
      sectionPosition ctx partNum + firstWordSize ≠ ctx.partitionLength)
    (hr : enterSection device ctx partNum firstWord = (.success, ctx')) : NewRequest ctx ctx' := by
  unfold enterSection validateUpdate at hr
  split_ifs at hr with hvalid
  swap
  · cases hr
  dsimp only at hr
  rw [if_neg (by simp)] at hr
  split_ifs at hr with hskip hsize
  · cases hr
    refine ⟨rfl, rfl, rfl, rfl, rfl, .inr ⟨Nat.succ_pos 11, ?_⟩⟩
    unfold passedOver
    rw [if_pos ⟨hstate, nofun⟩, if_neg nofun]
    rfl
  · cases hr
  have hne := hposition (by omega)
  unfold openSection partitionOpen at hr
  unfold sectionPosition at hne
  dsimp only at hr
  cases hhdl : ctx.partitionHdl with
  | none =>
    rw [hhdl] at hne hr
    dsimp only at hne hr
    cases hopen : device.streamGetSink partNum firstWord with
    | false =>
      rw [hopen, if_neg Bool.false_ne_true] at hr
      cases hr
    | true =>
      rw [hopen, if_pos rfl] at hr
      dsimp only at hr
      refine newRequest_startSection hstate ?_ ?_ ?_ hne hr <;> rfl
  | some sink =>
    rw [hhdl] at hne hr
    dsimp only at hne hr
    refine newRequest_startSection hstate ?_ ?_ ?_ hne hr <;> rfl

theorem newRequest_dataHeader
    (hposition : ∀ partNum ∈ get2BytesFromStream data 2,
      ctx.libKeys.lastClosedPartition ≤ partNum →
        sectionPosition ctx partNum + firstWordSize ≠ ctx.partitionLength)
    (hr : handleDataHeaderState device ctx data = some (.success, ctx')) :
    NewRequest ctx ctx' := by
  unfold handleDataHeaderState at hr
  simp only [pure_def, bind_eq_bind] at hr
  split_ifs at hr
  · cases hr
  obtain ⟨sqifNum, -, hr⟩ := bind_eq_some_iff.mp hr
  obtain ⟨partNum, hnum, hr⟩ := bind_eq_some_iff.mp hr
  split_ifs at hr
  · cases hr
  · cases hr
  obtain ⟨ops, keys, pskey, offset, hr⟩ := andThen_saved (some.inj hr)
  have hnew : NewRequest (withHeader ctx ops keys pskey offset) ctx' := by
    apply newRequest_enterSection
    · exact hstate
    · exact hposition partNum hnum
    · exact hr
  exact ⟨hnew.newReqSize, hnew.totalReceivedSize, hnew.chunkReceivedSize, hnew.isDataXferComplete,
    hnew.dfuFileOffset, hnew.next⟩

end

theorem sameRequest_partitionWrite (device : Device) (ctx : PartitionData) (data : List UInt8) :
    SameRequest ctx (partitionWrite device ctx data).2 := by
  cases hhdl : ctx.partitionHdl with
  | none =>
    unfold partitionWrite
    rw [hhdl]
    exact ⟨rfl, rfl, rfl, rfl, rfl, rfl, rfl, rfl⟩
  | some sink =>
    obtain ⟨ops, -, hw⟩ := partitionWrite_some device hhdl data
    rw [hw]
    exact ⟨rfl, rfl, rfl, rfl, rfl, rfl, rfl, rfl⟩

theorem sameRequest_closeSection (device : Device) (ctx : PartitionData) :
    SameRequest ctx (closeSection device ctx).2 := by
  unfold closeSection partitionClose
  dsimp only
  split
  · exact ⟨rfl, rfl, rfl, rfl, rfl, rfl, rfl, rfl⟩
  · split_ifs <;> exact ⟨rfl, rfl, rfl, rfl, rfl, rfl, rfl, rfl⟩

theorem newRequest_data (hstate : ctx.state = .data)
    (hr : handleDataState device ctx data true = (.success, ctx')) : NewRequest ctx ctx' := by
  have hwrite := sameRequest_partitionWrite device ctx data
  unfold handleDataState at hr
  dsimp only at hr
  rcases ite_eq_iff.mp hr with ⟨-, hr⟩ | ⟨-, hr⟩
  · cases hr
  rw [if_pos rfl] at hr
  have hrc := congrArg Prod.fst hr
  rw [andThen_success hrc] at hr
  cases hr
  have hclose := sameRequest_closeSection device
    { requestData (partitionWrite device ctx data).2 headerFirstPartSize 0 with
      state := .generic1stPart }
  refine ⟨hclose.newReqSize.trans hclose.totalReqSize.symm, hclose.totalReceivedSize,
    hclose.chunkReceivedSize, hclose.isDataXferComplete.trans hwrite.isDataXferComplete,
    hclose.dfuFileOffset.trans hwrite.dfuFileOffset, .inr ⟨?_, ?_⟩⟩
  · show 0 < (closeSection _ _).2.totalReqSize
    rw [hclose.totalReqSize]
    exact Nat.succ_pos 11
  · unfold passedOver
    rw [if_neg (by rw [hstate]; rintro ⟨⟨⟩, -⟩)]
    exact hclose.offset

theorem sameRequest_data (hr : handleDataState device ctx data false = (.success, ctx')) :
    SameRequest ctx ctx' := by
  have hw := sameRequest_partitionWrite device ctx data
  unfold handleDataState at hr
  dsimp only at hr
  rcases ite_eq_iff.mp hr with ⟨-, hr⟩ | ⟨-, hr⟩
  · cases hr
  rw [if_neg Bool.false_ne_true] at hr
  cases hr
  exact hw

theorem sameRequest_footer (hr : handleFooterState ctx data false = (.success, ctx')) :
    SameRequest ctx ctx' := by
  unfold handleFooterState at hr
  have hrc := congrArg Prod.fst hr
  rw [andThen_success hrc] at hr
  cases hr
  unfold saveFooter
  split_ifs with hover
  · exact ⟨rfl, rfl, rfl, rfl, rfl, rfl, rfl, rfl⟩
  · obtain ⟨ops, keys, pskey, offset, hs⟩ := saveHeaderInPSKeys_eq { ctx with
      signature := ctx.signature.take ctx.signatureReceived ++ data ++
        ctx.signature.drop (ctx.signatureReceived + data.length)
      signatureReceived := ctx.signatureReceived + data.length } data
    dsimp only
    rw [hs]
    exact ⟨rfl, rfl, rfl, rfl, rfl, rfl, rfl, rfl⟩

theorem handleFooterState_ne_success : (handleFooterState ctx data true).1 ≠ .success := by
  unfold handleFooterState
  intro hrc
  rw [andThen_success hrc] at hrc
  cases hrc

/-! ## One packet -/

/-- A complete block makes the next request. -/
theorem newRequest_parseComplete
    (hposition : ctx.state = .dataHeader → ∀ partNum ∈ get2BytesFromStream data 2,
      ctx.libKeys.lastClosedPartition ≤ partNum →
        sectionPosition ctx partNum + firstWordSize ≠ ctx.partitionLength)
    (hr : parseComplete device ctx data = some (.success, ctx')) : NewRequest ctx ctx' := by
  unfold parseComplete at hr
  cases hstate : ctx.state with
  | generic1stPart =>
    rw [hstate] at hr
    exact newRequest_generic1stPart hstate hr
  | header =>
    rw [hstate] at hr
    exact newRequest_header hstate hr
  | dataHeader =>
    rw [hstate] at hr
    exact newRequest_dataHeader hstate (hposition hstate) hr
  | data =>
    rw [hstate] at hr
    exact newRequest_data hstate (some.inj hr)
  | footer =>
    rw [hstate] at hr
    exact absurd (congrArg Prod.fst (some.inj hr)) handleFooterState_ne_success

/-- A packet in the middle of a request leaves the request alone; the last one completes it. -/
theorem parse_success {parser parser' : Parser}
    (hr : parse device parser data = some (.success, parser')) :
    (parser.ctx.totalReceivedSize + data.length < parser.ctx.totalReqSize ∧
      SameRequest (received parser.ctx data.length) parser'.ctx) ∨
    (parser.ctx.totalReceivedSize + data.length = parser.ctx.totalReqSize ∧
      parseComplete device (received parser.ctx data.length) (parser.incompleteData ++ data) =
        some (.success, parser'.ctx)) := by
  obtain ⟨ctx, incompleteData⟩ := parser
  rcases parse_cases hr with ⟨hne, -⟩ | ⟨hlt, heq | ⟨rfl, hpart⟩⟩ | ⟨hall, ⟨rc, ctx''⟩, hq, heq⟩
  · exact absurd rfl hne
  · cases heq
    exact .inl ⟨hlt, ⟨rfl, rfl, rfl, rfl, rfl, rfl, rfl, rfl⟩⟩
  · refine .inl ⟨hlt, ?_⟩
    simp only [parseCompleteData, Bool.false_eq_true, if_false] at hpart
    split at hpart
    · obtain ⟨hrc, rfl⟩ := Prod.mk.inj (some.inj hpart)
      exact sameRequest_data (Prod.ext hrc rfl)
    · obtain ⟨hrc, rfl⟩ := Prod.mk.inj (some.inj hpart)
      exact sameRequest_footer (Prod.ext hrc rfl)
    · unfold storeIncomplete at hpart
      split_ifs at hpart
      · cases hpart
      · cases hpart
        exact ⟨rfl, rfl, rfl, rfl, rfl, rfl, rfl, rfl⟩
  · cases heq
    exact .inr ⟨hall, hq⟩

/-! ## Runs -/

/-- The host is in place, and what it has not sent yet is the rest of the request, or the rest of
a chunk of it. -/
structure Waiting (device : Device) (l : Link) : Prop where
  isDataXferComplete : l.parser.ctx.isDataXferComplete = false
  whole : device.maxRequestSize = 0 → l.parser.ctx.newReqSize = 0 ∧
    l.parser.ctx.totalReceivedSize + l.outstanding = l.parser.ctx.totalReqSize
  chunk : device.maxRequestSize ≠ 0 → l.parser.ctx.newReqSize ≠ 0 ∧
    l.parser.ctx.chunkReceivedSize ≤ l.parser.ctx.totalReceivedSize ∧
    l.parser.ctx.totalReceivedSize ≤ l.parser.ctx.totalReqSize ∧
    l.parser.ctx.chunkReceivedSize + l.outstanding = min
      (l.parser.ctx.totalReqSize - (l.parser.ctx.totalReceivedSize - l.parser.ctx.chunkReceivedSize))
      device.maxRequestSize
  cursor : l.cursor = l.truePosition
  outstanding : 0 < l.outstanding
  counted : l.straight = true → l.parser.ctx.dfuFileOffset = l.truePosition % 2 ^ 32
  atStart : l.truePosition = 0 → l.parser.ctx.offset = 0 ∧ l.parser.ctx.chunkReceivedSize = 0

/-- The invariant: the host waits, unless the transfer is over. -/
def Kept (device : Device) (l : Link) : Prop :=
  l.rc = .success → l.parser.ctx.caseDfuStatus ≠ .inProgress → Waiting device l

theorem Kept.inPlace (h : Kept device l) : InPlace l := by
  intro hrc hcase
  exact ⟨(h hrc hcase).cursor, (h hrc hcase).outstanding⟩

variable (device) in
theorem getNextReqSize_frame (ctx : PartitionData) :
    (getNextReqSize device ctx).2.caseDfuStatus = ctx.caseDfuStatus ∧
      (getNextReqSize device ctx).2.offset = ctx.offset ∧
      (getNextReqSize device ctx).2.dfuFileOffset = ctx.dfuFileOffset := by
  unfold getNextReqSize
  split_ifs <;> exact ⟨rfl, rfl, rfl⟩

/-- A request that nothing was received for goes out as a whole, or its first chunk does. -/
theorem waiting_of_new (ctx : PartitionData) (hover : ctx.isDataXferComplete = false)
    (hnew : ctx.newReqSize = ctx.totalReqSize) (hpos : 0 < ctx.totalReqSize)
    (hreceived : ctx.totalReceivedSize = 0) (hchunk : ctx.chunkReceivedSize = 0)
    (hparser : l.parser.ctx = (getNextReqSize device ctx).2)
    (hsize : l.outstanding = (getNextReqSize device ctx).1) (hcursor : l.cursor = l.truePosition)
    (hcounted : l.straight = true → ctx.dfuFileOffset = l.truePosition % 2 ^ 32)
    (hstart : l.truePosition = 0 → ctx.offset = 0) : Waiting device l := by
  have hframe := getNextReqSize_frame device ctx
  rw [← hframe.2.2, ← hparser] at hcounted
  rw [← hframe.2.1, ← hparser] at hstart
  unfold getNextReqSize at hparser hsize
  rw [hchunk, hreceived, if_neg (lt_irrefl 0)] at hparser hsize
  split_ifs at hparser hsize with hmax
  · dsimp only at hparser hsize
    refine ⟨?_, fun h => absurd h hmax, fun _ => ?_, hcursor, ?_, hcounted,
      fun h0 => ⟨hstart h0, hparser ▸ hchunk⟩⟩
    · rw [hparser]
      exact hover
    · rw [hparser, hreceived, hchunk, hsize]
      omega
    · omega
  · dsimp only at hparser hsize
    refine ⟨?_, fun _ => ?_, fun h => absurd (not_not.mp hmax) h, hcursor, ?_, hcounted,
      fun h0 => ⟨hstart h0, by rw [hparser]⟩⟩
    · rw [hparser]
      exact hover
    · rw [hparser, hsize]
      dsimp only
      omega
    · omega

/-- A packet in the middle of a request. -/
theorem waiting_of_same {l l' : Link} {size : ℕ} (h : Waiting device l) (hpos : 0 < size)
    (hle : size ≤ l.outstanding)
    (hmid : l.parser.ctx.totalReceivedSize + size < l.parser.ctx.totalReqSize)
    (hsame : SameRequest (received l.parser.ctx size) l'.parser.ctx)
    (hoffset : size = l.outstanding → l.parser.ctx.offset = 0)
    (hcursor : l'.cursor = l.cursor + size) (houtstanding : l'.outstanding = l.outstanding - size)
    (htrue : l'.truePosition = l.truePosition + size) (hstraight : l'.straight = l.straight) :
    Waiting device (nextRequest device l') := by
  have hnew : l'.parser.ctx.newReqSize = l.parser.ctx.newReqSize := hsame.newReqSize
  have hreq : l'.parser.ctx.totalReqSize = l.parser.ctx.totalReqSize := hsame.totalReqSize
  have hreceived : l'.parser.ctx.totalReceivedSize = l.parser.ctx.totalReceivedSize + size :=
    hsame.totalReceivedSize
  have hchunk : l'.parser.ctx.chunkReceivedSize = l.parser.ctx.chunkReceivedSize + size :=
    hsame.chunkReceivedSize
  have hoff : l'.parser.ctx.offset = l.parser.ctx.offset := hsame.offset
  have hover : l'.parser.ctx.isDataXferComplete = false :=
    hsame.isDataXferComplete.trans h.isDataXferComplete
  have hplace := h.cursor
  have hcounted : l'.straight = true → l'.parser.ctx.dfuFileOffset = l'.truePosition % 2 ^ 32 := by
    intro hs
    rw [hsame.dfuFileOffset, htrue]
    change (l.parser.ctx.dfuFileOffset + size) % 2 ^ 32 = _
    rw [h.counted (hstraight ▸ hs), Nat.mod_add_mod]
  have hfirst : l'.truePosition ≠ 0 := by omega
  unfold nextRequest getNextReqSize
  by_cases hmax : device.maxRequestSize = 0
  · obtain ⟨hzero, hwhole⟩ := h.whole hmax
    rw [if_neg (not_not.mpr hmax)]
    dsimp only
    rw [if_pos (hnew.trans hzero)]
    refine ⟨hover, fun _ => ⟨rfl, ?_⟩, fun h => absurd hmax h, ?_, ?_, hcounted,
      fun h => absurd h hfirst⟩
    · dsimp only
      omega
    · dsimp only
      omega
    · dsimp only
      omega
  · obtain ⟨hne, hcr, hrR, hmin⟩ := h.chunk hmax
    rw [if_pos hmax, if_pos (by omega)]
    by_cases hfull : l'.parser.ctx.chunkReceivedSize < device.maxRequestSize
    · -- the chunk goes on
      rw [if_pos hfull]
      dsimp only
      rw [if_pos rfl]
      exact ⟨hover, fun h => absurd h hmax, fun _ => by dsimp only; omega, by dsimp only; omega,
        by dsimp only; omega, hcounted, fun h => absurd h hfirst⟩
    · -- the next chunk, with the same offset
      have hall : size = l.outstanding := by omega
      have hzero := hoffset hall
      rw [if_neg hfull]
      dsimp only
      rw [if_neg (by omega)]
      exact ⟨hover, fun h => absurd h hmax, fun _ => by dsimp only; omega, by dsimp only; omega,
        by dsimp only; omega, hcounted, fun h => absurd h hfirst⟩

theorem nextRequest_frame (l : Link) : (nextRequest device l).rc = l.rc ∧
    (nextRequest device l).parser.ctx.caseDfuStatus = l.parser.ctx.caseDfuStatus := by
  unfold nextRequest
  dsimp only
  split_ifs <;> exact ⟨rfl, (getNextReqSize_frame device _).1⟩

/-- **One packet.** -/
theorem kept_packet {l l' : Link} {size : ℕ} (h : Waiting device l)
    (hperm : Permitted device file l (.packet size)) (hr : packet device file l size = some l') :
    Kept device l' := by
  unfold packet at hr
  rcases ite_eq_iff.mp hr with ⟨-, hr⟩ | ⟨hbounds, hr⟩
  · cases hr
  obtain ⟨⟨rc, parser⟩, hparse, hr⟩ := map_eq_some_iff.mp hr
  dsimp only at hr
  have hlength : ((file.drop l.cursor).take size).length = size := by
    rw [List.length_take, List.length_drop]
    omega
  rcases ite_eq_iff.mp hr with ⟨hrc, rfl⟩ | ⟨hrc, rfl⟩
  swap
  · exact fun h => absurd h hrc
  subst hrc
  intro _ hcase
  rw [(nextRequest_frame _).2] at hcase
  obtain ⟨hchunks, hposition⟩ := hperm
  rcases parse_success hparse with ⟨hmid, hsame⟩ | ⟨hall, hcomplete⟩
  · rw [hlength] at hmid hsame
    have hpassed : passedOver l.parser.ctx parser.ctx = 0 := by
      unfold passedOver
      rw [if_neg]
      rintro ⟨hstate, hne⟩
      exact hne (hsame.state.trans hstate)
    refine waiting_of_same h (by omega) (by omega) hmid hsame (fun hs => hchunks hs hmid) rfl rfl ?_
      ?_
    · show _ + passedOver l.parser.ctx parser.ctx = _
      rw [hpassed, add_zero]
    · simp [hpassed]
  · rw [hlength] at hall hcomplete
    have hnew : NewRequest (received l.parser.ctx size) parser.ctx := by
      refine newRequest_parseComplete (fun hs => ?_) hcomplete
      exact hposition hs hall
    obtain ⟨hpos, hoffset⟩ := hnew.next.resolve_left hcase
    have hout : l.outstanding = size := by
      by_cases hmax : device.maxRequestSize = 0
      · have := (h.whole hmax).2
        omega
      · have := h.chunk hmax
        omega
    have hsize : (getNextReqSize device parser.ctx).1 ≠ 0 := by
      unfold getNextReqSize
      rw [hnew.chunkReceivedSize, hnew.totalReceivedSize, hnew.newReqSize,
        if_neg (lt_irrefl 0)]
      split_ifs <;> dsimp only <;> omega
    have hoff : (getNextReqSize device parser.ctx).2.offset = passedOver l.parser.ctx parser.ctx :=
      ((getNextReqSize_frame device _).2.1).trans hoffset
    have hplace := h.cursor
    unfold nextRequest
    dsimp only
    rw [if_neg hsize]
    have hover : parser.ctx.isDataXferComplete = false :=
      hnew.isDataXferComplete.trans h.isDataXferComplete
    refine waiting_of_new parser.ctx hover hnew.newReqSize hpos hnew.totalReceivedSize
      hnew.chunkReceivedSize rfl rfl ?_ ?_ ?_
    · dsimp only
      omega
    · intro hs
      obtain ⟨hs, hpassed⟩ := Bool.and_eq_true_iff.mp hs
      dsimp only
      rw [hnew.dfuFileOffset, of_decide_eq_true hpassed, add_zero]
      change (l.parser.ctx.dfuFileOffset + size) % 2 ^ 32 = _
      rw [h.counted hs, Nat.mod_add_mod]
    · dsimp only
      omega

/-- **A reconnect.** -/
theorem kept_reconnect (h : Waiting device l) (hperm : Permitted device file l .reconnect) :
    Kept device (reconnect device l) := by
  intro _ _
  have hpos := h.outstanding
  have hover := h.isDataXferComplete
  unfold Permitted at hperm
  by_cases hmax : device.maxRequestSize = 0
  · rw [if_neg (not_not.mpr hmax)] at hperm
    obtain ⟨hnew, hwhole⟩ := h.whole hmax
    by_cases hresumes : resumes l.parser.ctx
    · -- the rest of the request, at the counted offset
      rw [if_pos hresumes] at hperm
      have hcounted : l.parser.ctx.dfuFileOffset = l.truePosition :=
        (h.counted hperm.1).trans (Nat.mod_eq_of_lt hperm.2)
      have hinit : partitionDataInit l.parser.ctx = requestData l.parser.ctx
          (l.parser.ctx.totalReqSize - l.parser.ctx.totalReceivedSize)
          l.parser.ctx.dfuFileOffset := by
        unfold partitionDataInit
        rw [if_pos hresumes, if_neg (by rw [hover]; exact fun h => nomatch h.1), if_pos hnew]
      have hrest : 0 < l.parser.ctx.totalReqSize - l.parser.ctx.totalReceivedSize := by omega
      unfold reconnect
      rw [hinit, if_pos (.inl hresumes)]
      refine waiting_of_new _ ?_ rfl ?_ rfl rfl rfl rfl ?_ ?_ ?_
      · exact hover
      · exact hrest
      · dsimp only
        rw [(getNextReqSize_frame device _).2.1]
        exact hcounted
      · exact fun _ => h.counted hperm.1
      · exact fun h0 => hcounted.trans h0
    · -- from the start of the file
      rw [if_neg hresumes] at hperm
      obtain ⟨hdata, hoffset⟩ := hperm
      unfold reconnect partitionDataInit
      dsimp only
      rw [if_neg hresumes, if_pos hnew, if_neg (not_or.mpr ⟨hresumes, fun hne => hne hnew⟩), hdata]
      refine waiting_of_new _ ?_ rfl ?_ rfl rfl rfl rfl ?_ ?_ ?_
      · exact hover
      · exact Nat.succ_pos 11
      · dsimp only
        rw [(getNextReqSize_frame device _).2.1]
        exact hoffset
      · intro hs
        obtain ⟨hs, hfirst⟩ := Bool.and_eq_true_iff.mp hs
        rw [Bool.or_eq_true, decide_eq_true_eq, or_iff_right hresumes] at hfirst
        exact (h.counted hs).trans (by rw [hfirst]; rfl)
      · exact fun _ => hoffset
  · -- nothing was received yet
    rw [if_pos hmax] at hperm
    obtain ⟨hne, hcr, hrR, hmin⟩ := h.chunk hmax
    obtain ⟨hoffset, hzero⟩ := h.atStart hperm
    by_cases hresumes : resumes l.parser.ctx
    · have hinit : partitionDataInit l.parser.ctx = l.parser.ctx := by
        unfold partitionDataInit
        rw [if_pos hresumes, if_neg (by rw [hover]; exact fun h => nomatch h.1), if_neg hne]
      have hnext : getNextReqSize device l.parser.ctx =
          (min (l.parser.ctx.totalReqSize - l.parser.ctx.totalReceivedSize) device.maxRequestSize,
            l.parser.ctx) := by
        unfold getNextReqSize
        rw [if_pos hmax, hzero, if_neg (lt_irrefl 0)]
      unfold reconnect
      rw [hinit, hnext, if_pos (.inl hresumes)]
      refine ⟨hover, fun h => absurd h hmax, fun _ => ?_, hoffset.trans hperm.symm, ?_,
        fun hs => ?_, h.atStart⟩
      · dsimp only
        omega
      · dsimp only
        omega
      · exact h.counted (Bool.and_eq_true_iff.mp hs).1
    · unfold reconnect partitionDataInit
      dsimp only
      rw [if_neg hresumes, if_neg hne, if_pos (.inr hne)]
      refine waiting_of_new _ ?_ rfl ?_ rfl rfl rfl rfl ?_ ?_ ?_
      · exact hover
      · exact Nat.pos_of_ne_zero hne
      · dsimp only
        rw [(getNextReqSize_frame device _).2.1]
        exact hoffset.trans hperm.symm
      · exact fun hs => h.counted (Bool.and_eq_true_iff.mp hs).1
      · exact fun _ => hoffset

theorem kept_step (l : Link) (event : Event) (l' : Link) (h : Kept device l)
    (hperm : Permitted device file l event) (hr : step device file l event = some l') :
    Kept device l' := by
  unfold step at hr
  rcases ite_eq_iff.mp hr with ⟨-, hr⟩ | ⟨hgoing, hr⟩
  · cases hr
  obtain ⟨hrc, hcase⟩ := not_or.mp hgoing
  have hwaiting := h (not_not.mp hrc) hcase
  cases event with
  | packet size => exact kept_packet hwaiting hperm hr
  | reconnect =>
    cases hr
    exact kept_reconnect hwaiting hperm

/-- The start of a transfer: the first request of a context, with the host at the start of the
file. Whatever is in the flash, and however the upgrade before it ended, stays. -/
def start (device : Device) (ctx : PartitionData) : Link :=
  let ctx := { ctx with
    state := .generic1stPart
    dfuFileOffset := 0
    isDataXferComplete := false
    caseDfuStatus := .notStarted }
  let (outstanding, ctx) := getNextReqSize device (requestData ctx headerFirstPartSize 0)
  { parser := ⟨ctx, []⟩, rc := .success, cursor := 0, outstanding, truePosition := 0,
    straight := true }

theorem kept_start (ctx : PartitionData) : Kept device (start device ctx) := by
  intro _ _
  unfold start
  exact waiting_of_new _ rfl rfl (Nat.succ_pos 11) rfl rfl rfl rfl rfl (fun _ => rfl) fun _ => rfl

/-- **The host in the file.** With permitted events the host sends what the parser means to get,
and there is always something left to send. -/
theorem inPlace_of_meets (device : Device) (file : List UInt8) (ctx : PartitionData)
    (events : List Event)
    (h : Lib.Meets (step device file) (Permitted device file) (start device ctx) events) :
    Lib.Throughout (step device file) InPlace (start device ctx) events := by
  intro ks l hks hr
  have hkept : Kept device l :=
    Lib.invariant_of_meets kept_step (kept_start ctx) (h.of_prefix hks) hr
  exact hkept.inPlace

/-- The context of a device on which the sections before `lastClosedPartition` are in the flash. -/
def sampleContext (lastClosedPartition : ℕ) : PartitionData :=
  { (fresh ⟨9, 8⟩ 7 1 fun _ => []).ctx with libKeys.lastClosedPartition := lastClosedPartition }

/-- The link is lost in the middle of the section, and the rest of it follows. -/
theorem inPlace_reconnect :
    let events : List Event := [.packet 12, .packet 24, .packet 12, .packet 8, .packet 1,
      .reconnect, .packet 2, .packet 12]
    Lib.Throughout (step sampleDevice samplePackets.flatten) InPlace
        (start sampleDevice (sampleContext 0)) events ∧
      (Lib.run (step sampleDevice samplePackets.flatten) (start sampleDevice (sampleContext 0))
        events).isSome :=
  ⟨inPlace_of_meets sampleDevice samplePackets.flatten (sampleContext 0) _ (by decide +kernel),
    by decide +kernel⟩

/-- The device requests at most five bytes, and the three bytes of the section are in the flash
already: the host passes over them with each chunk of the header behind the section. -/
theorem not_inPlace_skippedSection :
    ∃ events l, Lib.run (step { sampleDevice with maxRequestSize := 5 } samplePackets.flatten)
      (start { sampleDevice with maxRequestSize := 5 } (sampleContext 3)) events = some l ∧
        ¬ InPlace l := by
  let events : List Event := [5, 5, 2, 5, 5, 5, 5, 4, 5, 5, 2, 5, 3, 5].map .packet
  have hrun : ((Lib.run (step { sampleDevice with maxRequestSize := 5 } samplePackets.flatten)
      (start { sampleDevice with maxRequestSize := 5 } (sampleContext 3)) events).map fun l =>
        (l.rc, l.parser.ctx.caseDfuStatus, l.cursor, l.truePosition)) =
          some (.success, .notStarted, 67, 64) := by decide +kernel
  obtain ⟨l, hl, he⟩ := Option.map_eq_some_iff.mp hrun
  obtain ⟨hrc, he⟩ := Prod.mk.inj he
  obtain ⟨hcase, he⟩ := Prod.mk.inj he
  obtain ⟨hcursor, htrue⟩ := Prod.mk.inj he
  refine ⟨events, l, hl, fun h => ?_⟩
  have := (h hrc (by rw [hcase]; decide)).1
  omega

end Mh40.Upgrade.HostFile

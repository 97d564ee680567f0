import Mathlib.Algebra.Order.Ring.Nat
import Mathlib.Data.List.Basic

/-!
# Flash of an upgrade

What an upgrade leaves on the device: the PS keys, the keys of the upgrade library
(`UPGRADE_LIB_PSKEY`) and the sections of the other image bank.

* A PS key is the list of its bytes. `PsStore` stores whole words, so a byte of it may be one that
  the caller never set (the rest of an uninitialised buffer), which is `none`.
* A section holds the bytes that were flushed to it behind its first word. The first word is
  written when the stream is closed.
* The keys are stored and the sections written one `FlashOp` at a time. All of them succeed.
* The firmware of the image stream is not part of the sources. Its documentation says that the
  position of a sink is the one from which each word of the section is `0xFFFF`.
-/

namespace Mh40.Upgrade

/-- A byte of a PS key, `none` when it was never set. -/
abbrev Cell := Option UInt8

def pskeyMaxStorageLengthInBytes : ℕ := 64

/-- `state_of_partitions`. -/
inductive StateOfPartitions where
  | erased
  | upgrading
  deriving DecidableEq

/-- `upgrade_version`. -/
structure Version where
  major : ℕ
  minor : ℕ
  deriving DecidableEq

/-- `UPGRADE_LIB_PSKEY`. -/
structure LibKeys where
  version : Version
  configVersion : ℕ
  versionInProgress : Version
  configVersionInProgress : ℕ
  stateOfPartitions : StateOfPartitions
  dfuPartitionNum : ℕ
  lastClosedPartition : ℕ
  deriving DecidableEq

/-- The persistent state of the device. -/
structure Flash where
  psKeys : ℕ → List Cell
  libKeys : LibKeys
  sectionData : ℕ → List UInt8
  firstWord : ℕ → Option ℕ

/-- One operation on the flash. -/
inductive FlashOp where
  | psStore (key : ℕ) (cells : List Cell)
  | saveLibKeys (keys : LibKeys)
  | sinkFlush (partNum position : ℕ) (data : List UInt8)
  | sinkClose (partNum firstWord : ℕ)

/-- What an operation does. -/
def FlashOp.apply (flash : Flash) : FlashOp → Flash
  | .psStore key cells => { flash with psKeys := Function.update flash.psKeys key cells }
  | .saveLibKeys keys => { flash with libKeys := keys }
  | .sinkFlush partNum position data =>
    { flash with
      sectionData := Function.update flash.sectionData partNum
        ((flash.sectionData partNum).take position ++ data) }
  | .sinkClose partNum firstWord =>
    { flash with firstWord := Function.update flash.firstWord partNum (some firstWord) }

/-- `PsRetrieve` with no buffer: the length of a key in words. -/
def pskeyLength (flash : Flash) (key : ℕ) : ℕ := (flash.psKeys key).length / 2

/-- `ImageUpgradeSinkGetPosition` of a sink that was just opened: the words at the end that are
`0xFFFF` count as not written. -/
def sinkPosition : List UInt8 → ℕ
  | a :: b :: data =>
    let n := sinkPosition data
    if n = 0 ∧ a = 0xFF ∧ b = 0xFF then 0 else n + 2
  | [a] => if a = 0xFF then 0 else 1
  | [] => 0

/-- A write handle of a section. -/
structure Sink where
  partNum : ℕ
  firstWord : ℕ
  position : ℕ
  deriving DecidableEq

end Mh40.Upgrade

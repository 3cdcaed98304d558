import Shoes.Vless.Unpadding

/-! # Padding blocks

`pad`, and what the unpadder of the other side makes of a block. What the random number generator
gives comes from outside. -/
namespace Shoes.Vless.Pad
open Lib.Io Lib.Bytes Lib.Scanner VisionUnpad Unpadding List

def longPaddingMin : Nat := 900

def longPaddingRandomMax : Nat := 500

def shortPaddingRandomMax : Nat := 256

def maxPaddingSize : Nat := 8171

/-- What the generator gives for one block: a number, of which the rest modulo the range is used,
and the bytes of the padding. -/
structure Draw where
  random : Nat
  fill : Nat → UInt8

def calculatePaddingLength (contentLen : Nat) (isTls : Bool) (random : Nat) : Nat :=
  let maxAllowable := maxPaddingSize - contentLen
  if isTls ∧ contentLen < longPaddingMin then
    min (longPaddingMin - contentLen + random % longPaddingRandomMax) maxAllowable
  else min (random % shortPaddingRandomMax) maxAllowable

/-- The commands as `pad` is called with them. -/
def commandByte : UnpadCommand → UInt8
  | .continue_ => 0x00
  | .end_ => 0x01
  | .direct => 0x02

def pad (data : List UInt8) (uuid : Option Uuid) (command : UInt8) (isTls : Bool) (draw : Draw) :
    List UInt8 :=
  -- `as u16`
  let contentLen := UInt16.ofNat data.length
  let paddingLen := calculatePaddingLength contentLen.toNat isTls draw.random
  uuid.elim [] Subtype.val ++ command :: (u16ToBeBytes contentLen ++
    (u16ToBeBytes (UInt16.ofNat paddingLen) ++ (data ++ (List.range paddingLen).map draw.fill)))

/-! ## Unpadding a block -/

theorem tryFrom_commandByte (command) :
    UnpadCommand.tryFrom (commandByte command) = .ok command := by
  cases command <;> rfl

theorem calculatePaddingLength_le (contentLen isTls random) :
    calculatePaddingLength contentLen isTls random ≤ maxPaddingSize := by
  unfold calculatePaddingLength
  dsimp only
  split <;> omega

theorem scan_header (command firstBlock contentLen paddingLen rest) :
    scan readByte ⟨.command, firstBlock⟩ (commandByte command :: (u16ToBeBytes contentLen ++
      (u16ToBeBytes paddingLen ++ rest))) =
      resume readByte (atContent command paddingLen.toNat firstBlock contentLen.toNat) rest := by
  have hread : readByte ⟨.command, firstBlock⟩ (commandByte command) =
      ([], .go ⟨.contentLength command none, firstBlock⟩) := by
    simp only [readByte, tryFrom_commandByte]
  rw [scan_silent hread, resume_go, u16ToBeBytes, u16ToBeBytes, cons_append, cons_append,
    nil_append, scan_silent rfl, resume_go, scan_silent rfl, resume_go, cons_append,
    cons_append, nil_append, scan_silent rfl, resume_go, scan_silent rfl,
    u16FromBeBytes_toBeBytes, u16FromBeBytes_toBeBytes]

/-- **A block gives its content** and nothing of its padding, if the content fits its length. -/
theorem scan_pad (data command isTls draw firstBlock) (hlen : data.length ≤ 65535) (rest) :
    scan readByte ⟨.command, firstBlock⟩ (pad data none (commandByte command) isTls draw ++ rest) =
      (data ++ (resume readByte (afterBlock command) rest).1,
        (resume readByte (afterBlock command) rest).2) := by
  have hcontent : (UInt16.ofNat data.length).toNat = data.length := by
    rw [UInt16.toNat_ofNat']
    omega
  generalize hn : calculatePaddingLength data.length isTls draw.random = n
  have hn' := calculatePaddingLength_le data.length isTls draw.random
  rw [hn, maxPaddingSize] at hn'
  have hpadding : (UInt16.ofNat n).toNat = n := by
    rw [UInt16.toNat_ofNat']
    omega
  have hblock : pad data none (commandByte command) isTls draw ++ rest =
      commandByte command :: (u16ToBeBytes (UInt16.ofNat data.length) ++
        (u16ToBeBytes (UInt16.ofNat n) ++ (data ++ ((List.range n).map draw.fill ++ rest)))) := by
    simp only [pad, hcontent, hn, Option.elim, nil_append, cons_append, append_assoc]
  have hmin : min data.length (data ++ ((List.range n).map draw.fill ++ rest)).length =
      data.length := by
    rw [length_append]
    omega
  have hmin' : min n ((List.range n).map draw.fill ++ rest).length = n := by
    rw [length_append, length_map, length_range]
    omega
  have hskip : ((List.range n).map draw.fill ++ rest).drop n = rest := by
    rw [drop_append_of_le_length (by simp), drop_of_length_le (by simp), nil_append]
  rw [hblock, scan_header, hcontent, hpadding, scan_content, hmin, Nat.sub_self, take_left,
    drop_left, atContent, scan_padding, hmin', hskip, Nat.sub_self, atPadding]

/-- **A block is unpadded in one call**, behind the UUID or behind another block, and its padding
fits. -/
theorem unpad_pad (data : List UInt8) (hlen : data.length ≤ 65535) (uuid : Uuid)
    (command : UnpadCommand) (isTls : Bool) (draw : Draw) (firstBlock : Bool) :
    let result : Except IoError UnpadResult × VisionUnpadder := (.ok ⟨data, some command⟩,
      ⟨if command = .continue_ then .readingCommand else .done, false⟩)
    let paddingLen := calculatePaddingLength data.length isTls draw.random
    (VisionUnpadder.new uuid).unpad (pad data (some uuid) (commandByte command) isTls draw) = result ∧
      VisionUnpadder.unpad ⟨.readingCommand, firstBlock⟩
        (pad data none (commandByte command) isTls draw) = result ∧
      paddingLen < 2 ^ 16 ∧ paddingLen ≤ maxPaddingSize - data.length := by
  intro result paddingLen
  have hblock (firstBlock) : returned [] (scan readByte ⟨.command, firstBlock⟩
      (pad data none (commandByte command) isTls draw)) = result := by
    have hscan := scan_pad data command isTls draw firstBlock hlen []
    rw [append_nil] at hscan
    rw [hscan]
    cases command <;> simp [returned, afterBlock, scan, Position.command, result]
    rfl
  have hfits : paddingLen ≤ maxPaddingSize - data.length := by
    dsimp only [paddingLen, calculatePaddingLength]
    split <;> exact min_le_right ..
  refine ⟨?_, (unpad_position ⟨.command, firstBlock⟩ _).trans (hblock firstBlock), ?_, hfits⟩
  · refine (unpad_uuid uuid _ (take_left' uuid.property)).trans ?_
    rw [drop_left' uuid.property]
    exact hblock true
  rw [maxPaddingSize] at hfits
  omega

theorem unpad_pad_byte : [(65 : UInt8)].length ≤ 65535 ∧ (VisionUnpadder.new sampleUuid).unpad
      (pad [65] (some sampleUuid) (commandByte .end_) true ⟨7, fun _ => 0⟩) =
        (.ok ⟨[65], some .end_⟩, ⟨.done, false⟩) :=
  ⟨by decide, (unpad_pad [65] (by decide) sampleUuid .end_ true ⟨7, fun _ => 0⟩ true).1⟩

end Shoes.Vless.Pad

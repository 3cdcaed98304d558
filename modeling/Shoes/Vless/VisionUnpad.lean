import Shoes.Lib.Io

/-! # Unpadding of Vision streams

`VisionUnpadder`: a stream of padding blocks behind a UUID, fed packet by packet. A block is a
command, the lengths of content and padding, the content and the padding. -/
namespace Shoes.Vless.VisionUnpad
open Lib.Io Lib.Bytes

inductive UnpadCommand
  | continue_
  | end_
  | direct
  deriving DecidableEq, Repr

def invalidCommand (value : UInt8) : IoError :=
  ⟨.invalidData, s!"Invalid padding command: {value}"⟩

def UnpadCommand.tryFrom (value : UInt8) : Except IoError UnpadCommand :=
  if value = 0 then .ok .continue_
  else if value = 1 then .ok .end_
  else if value = 2 then .ok .direct
  else .error (invalidCommand value)

structure UnpadResult where
  content : List UInt8
  command : Option UnpadCommand
  deriving DecidableEq

def UnpadResult.none : UnpadResult := ⟨[], Option.none⟩

abbrev Uuid := { bytes : List UInt8 // bytes.length = 16 }

inductive UnpadState
  | initial (expectedUuid : Uuid)
  | readingCommand
  | readingContentLength (command : UnpadCommand) (firstByte : Option UInt8)
  | readingPaddingLength (command : UnpadCommand) (contentLen : UInt16) (firstByte : Option UInt8)
  | readingContent (command : UnpadCommand) (partialContent : List UInt8)
      (remainingContentLen : Nat) (paddingLen : Nat)
  | readingPadding (command : UnpadCommand) (content : List UInt8) (remainingPaddingLen : Nat)
  | done
  deriving DecidableEq

/-- The buffer of accumulated content is cleared by every call and so is not kept here. -/
structure VisionUnpadder where
  state : UnpadState
  firstBlock : Bool
  deriving DecidableEq

namespace VisionUnpadder

def new (expectedUuid : Uuid) : VisionUnpadder := ⟨.initial expectedUuid, true⟩

def alreadyDone : IoError := ⟨.invalidData, "Already in UnpadState::Done"⟩

/-- Out of data in a header: the content so far once a block is complete. -/
def outOfHeader (u : VisionUnpadder) (accumulated : List UInt8) : UnpadResult :=
  if u.firstBlock then .none else ⟨accumulated, some .continue_⟩

/-- Out of data in content or padding: the content so far. -/
def outOfData (u : VisionUnpadder) (accumulated : List UInt8) : UnpadResult :=
  ⟨accumulated, if u.firstBlock then none else some .continue_⟩

def unpadLoop : Nat → VisionUnpadder → List UInt8 → List UInt8 →
    Except IoError UnpadResult × VisionUnpadder
  | 0, u, accumulated, _ => (.ok (u.outOfData accumulated), u)
  | fuel + 1, u, accumulated, data =>
    match u.state with
    | .initial expectedUuid =>
      if data.length < 16 then (.ok .none, u)
      else if data.take 16 ≠ expectedUuid.val then (.ok ⟨data, none⟩, u)
      else unpadLoop fuel { u with state := .readingCommand } accumulated (data.drop 16)
    | .readingCommand =>
      match data with
      | [] => (.ok (u.outOfHeader accumulated), u)
      | commandByte :: data =>
        match UnpadCommand.tryFrom commandByte with
        | .error e => (.error e, u)
        | .ok command =>
          unpadLoop fuel { u with state := .readingContentLength command none } accumulated data
    | .readingContentLength command firstByte =>
      match data with
      | [] => (.ok (u.outOfHeader accumulated), u)
      | byte :: data =>
        match firstByte with
        | none =>
          unpadLoop fuel { u with state := .readingContentLength command (some byte) } accumulated
            data
        | some highByte =>
          let contentLen := u16FromBeBytes highByte byte
          unpadLoop fuel { u with state := .readingPaddingLength command contentLen none }
            accumulated data
    | .readingPaddingLength command contentLen firstByte =>
      match data with
      | [] => (.ok (u.outOfHeader accumulated), u)
      | byte :: data =>
        match firstByte with
        | none =>
          unpadLoop fuel { u with state := .readingPaddingLength command contentLen (some byte) }
            accumulated data
        | some highByte =>
          let paddingLen := u16FromBeBytes highByte byte
          unpadLoop fuel
            { u with state := .readingContent command [] contentLen.toNat paddingLen.toNat }
            accumulated data
    | .readingContent command partialContent remaining paddingLen =>
      if remaining > 0 ∧ data = [] then
        -- `append` leaves the partial content empty
        (.ok (u.outOfData (accumulated ++ partialContent)),
          { u with state := .readingContent command [] remaining paddingLen })
      else
        let toRead := min remaining data.length
        let partialContent := partialContent ++ data.take toRead
        if remaining - toRead = 0 then
          unpadLoop fuel { u with state := .readingPadding command partialContent paddingLen }
            accumulated (data.drop toRead)
        else
          unpadLoop fuel
            { u with state := .readingContent command partialContent (remaining - toRead) paddingLen }
            accumulated (data.drop toRead)
    | .readingPadding command content remaining =>
      if remaining > 0 ∧ data = [] then
        (.ok (u.outOfData (accumulated ++ content)),
          { u with state := .readingPadding command [] remaining })
      else
        let toSkip := min remaining data.length
        let data := data.drop toSkip
        if remaining - toSkip = 0 then
          let accumulated := accumulated ++ content
          match command with
          | .continue_ => unpadLoop fuel ⟨.readingCommand, false⟩ accumulated data
          | endOrDirect =>
            -- what is behind the last block goes to the caller as it is
            (.ok ⟨accumulated ++ data, some endOrDirect⟩, ⟨.done, false⟩)
        else
          unpadLoop fuel { u with state := .readingPadding command content (remaining - toSkip) }
            accumulated data
    | .done => (.error alreadyDone, u)

/-- `unpad`. Between two bytes the loop changes the state at most twice. -/
def unpad (u : VisionUnpadder) (data : List UInt8) : Except IoError UnpadResult × VisionUnpadder :=
  unpadLoop (3 * data.length + 3) u [] data

end VisionUnpadder

end Shoes.Vless.VisionUnpad

import Shoes.Lib.Scanner
import Shoes.Vless.VisionUnpad

/-! # Unpadding and packet boundaries

Behind the UUID, the unpadder is a scanner: every byte is read in a place of a block, and only the
bytes of the content are output, however the stream is cut into packets. Before the UUID and behind
the last block the cuts matter: exactly when is the last result here. -/
namespace Shoes.Vless.Unpadding
open Lib.Io Lib.Bytes Lib.Scanner VisionUnpad List

/-! ## Blocks, byte by byte -/

/-- The place of a byte in a block. `more` counts the bytes of content, or of padding, behind this
one. -/
inductive Place
  | command
  | contentLength (command : UnpadCommand) (firstByte : Option UInt8)
  | paddingLength (command : UnpadCommand) (contentLen : UInt16) (firstByte : Option UInt8)
  | content (command : UnpadCommand) (more paddingLen : Nat)
  | padding (command : UnpadCommand) (more : Nat)
  deriving DecidableEq

/-- The next byte is read at `place`; `firstBlock` as long as no block is complete. -/
structure Position where
  place : Place
  firstBlock : Bool
  deriving DecidableEq

/-- Why no more bytes are read. -/
inductive Stop
  | final (command : UnpadCommand)
  | invalid (commandByte : UInt8) (firstBlock : Bool)
  deriving DecidableEq

def afterBlock : UnpadCommand → Next Position Stop
  | .continue_ => .go ⟨.command, false⟩
  | command => .stop (.final command)

def atPadding (command : UnpadCommand) (firstBlock : Bool) : Nat → Next Position Stop
  | 0 => afterBlock command
  | more + 1 => .go ⟨.padding command more, firstBlock⟩

def atContent (command : UnpadCommand) (paddingLen : Nat) (firstBlock : Bool) :
    Nat → Next Position Stop
  | 0 => atPadding command firstBlock paddingLen
  | more + 1 => .go ⟨.content command more paddingLen, firstBlock⟩

/-- One byte: the content it is, and where it leads. -/
def readByte (p : Position) (byte : UInt8) : List UInt8 × Next Position Stop :=
  match p.place with
  | .command =>
    match UnpadCommand.tryFrom byte with
    | .error _ => ([], .stop (.invalid byte p.firstBlock))
    | .ok command => ([], .go { p with place := .contentLength command none })
  | .contentLength command none => ([], .go { p with place := .contentLength command (some byte) })
  | .contentLength command (some high) =>
    ([], .go { p with place := .paddingLength command (u16FromBeBytes high byte) none })
  | .paddingLength command contentLen none =>
    ([], .go { p with place := .paddingLength command contentLen (some byte) })
  | .paddingLength command contentLen (some high) =>
    ([], atContent command (u16FromBeBytes high byte).toNat p.firstBlock contentLen.toNat)
  | .content command more paddingLen => ([byte], atContent command paddingLen p.firstBlock more)
  | .padding command more => ([], atPadding command p.firstBlock more)

/-- The first byte behind the UUID. -/
def start : Position := ⟨.command, true⟩

theorem readByte_length (p byte) : (readByte p byte).1.length ≤ 1 := by
  unfold readByte
  split
  · split <;> exact Nat.zero_le _
  all_goals first | exact Nat.zero_le _ | exact Nat.le_refl _

/-! ## The unpadder is this scanner -/

/-- The state of the unpadder between two packets. -/
def Place.state : Place → UnpadState
  | .command => .readingCommand
  | .contentLength c firstByte => .readingContentLength c firstByte
  | .paddingLength c contentLen firstByte => .readingPaddingLength c contentLen firstByte
  | .content c more paddingLen => .readingContent c [] (more + 1) paddingLen
  | .padding c more => .readingPadding c [] (more + 1)

def Position.unpadder (p : Position) : VisionUnpadder := ⟨p.place.state, p.firstBlock⟩

/-- The command that a packet ending here is returned with. -/
def Position.command (p : Position) : Option UnpadCommand :=
  if p.firstBlock then none else some .continue_

/-- Where the next byte is read in a state, if there is a next byte at all. -/
def nextOf (firstBlock : Bool) : UnpadState → Option (Next Position Stop)
  | .initial _ => none
  | .readingCommand => some (.go ⟨.command, firstBlock⟩)
  | .readingContentLength command firstByte =>
    some (.go ⟨.contentLength command firstByte, firstBlock⟩)
  | .readingPaddingLength command contentLen firstByte =>
    some (.go ⟨.paddingLength command contentLen firstByte, firstBlock⟩)
  | .readingContent command _ remaining paddingLen =>
    some (atContent command paddingLen firstBlock remaining)
  | .readingPadding command _ remaining => some (atPadding command firstBlock remaining)
  | .done => none

/-- The content that a state holds back. -/
def pending : UnpadState → List UInt8
  | .readingContent _ partialContent _ _ => partialContent
  | .readingPadding _ content _ => content
  | _ => []

/-- What a call returns from a scan, with the content that is there already. -/
def returned (content : List UInt8) (out : List UInt8 × Ended Position Stop UInt8) :
    Except IoError UnpadResult × VisionUnpadder :=
  match out.2 with
  | .more p => (.ok ⟨content ++ out.1, p.command⟩, p.unpadder)
  | .stopped (.final command) rest =>
    (.ok ⟨content ++ out.1 ++ rest, some command⟩, ⟨.done, false⟩)
  | .stopped (.invalid commandByte firstBlock) _ =>
    (.error (invalidCommand commandByte), ⟨.readingCommand, firstBlock⟩)

theorem scan_content (command paddingLen firstBlock data remaining) :
    resume readByte (atContent command paddingLen firstBlock remaining) data =
      (data.take (min remaining data.length) ++
        (resume readByte (atContent command paddingLen firstBlock (remaining - min remaining data.length))
          (data.drop (min remaining data.length))).1,
        (resume readByte (atContent command paddingLen firstBlock (remaining - min remaining data.length))
          (data.drop (min remaining data.length))).2) := by
  induction data generalizing remaining with
  | nil => simp
  | cons b data ih =>
    cases remaining with
    | zero => simp
    | succ more =>
      rw [length_cons, Nat.add_min_add_right, Nat.add_sub_add_right]
      conv_lhs => rw [atContent, resume_go, scan_cons]
      simp only [readByte, ih more, take_succ_cons, drop_succ_cons, cons_append, nil_append]

theorem scan_padding (command firstBlock data remaining) :
    resume readByte (atPadding command firstBlock remaining) data =
      resume readByte (atPadding command firstBlock (remaining - min remaining data.length))
        (data.drop (min remaining data.length)) := by
  induction data generalizing remaining with
  | nil => simp
  | cons b data ih =>
    cases remaining with
    | zero => simp
    | succ more =>
      rw [length_cons, Nat.add_min_add_right, Nat.add_sub_add_right]
      conv_lhs => rw [atPadding, resume_go, scan_cons]
      simp only [readByte, ih more, drop_succ_cons, nil_append]

/-- What the loop may still do without reading a byte. -/
def rank : UnpadState → Nat
  | .readingContent .. => 2
  | .readingPadding .. => 1
  | _ => 0

variable (p : Position)

theorem outOfHeader_returned {accumulated} (hfirst : p.firstBlock = true → accumulated = []) :
    (.ok (p.unpadder.outOfHeader accumulated), p.unpadder) =
      returned (accumulated ++ []) (scan readByte p []) := by
  obtain ⟨_, firstBlock⟩ := p
  cases firstBlock with
  | true =>
    rw [hfirst rfl]
    rfl
  | false => simp [returned, scan, VisionUnpadder.outOfHeader, Position.command, Position.unpadder]

theorem outOfData_returned (accumulated) : (.ok (p.unpadder.outOfData accumulated), p.unpadder) =
      returned accumulated (scan readByte p []) := by
  obtain ⟨_, firstBlock⟩ := p
  cases firstBlock <;>
    simp [returned, scan, VisionUnpadder.outOfData, Position.command, Position.unpadder]

theorem scan_silent {p b next} (h : readByte p b = ([], next)) (data) :
    scan readByte p (b :: data) = resume readByte next data := by
  rw [scan_cons, h]
  rfl

theorem tryFrom_error {byte e} (h : UnpadCommand.tryFrom byte = .error e) :
    e = invalidCommand byte := by
  unfold UnpadCommand.tryFrom at h
  repeat' split at h
  all_goals cases h
  rfl

theorem returned_append (content more out) :
    returned content (more ++ out.1, out.2) = returned (content ++ more) out := by
  simp only [returned, append_assoc]

theorem unpadLoop_returned (fuel u accumulated data next)
    (hnext : nextOf u.firstBlock u.state = some next)
    (hfirst : u.firstBlock = true → accumulated = [])
    (hfuel : 3 * data.length + rank u.state < fuel) :
    VisionUnpadder.unpadLoop fuel u accumulated data =
      returned (accumulated ++ pending u.state) (resume readByte next data) := by
  induction fuel generalizing u accumulated data next with
  | zero => omega
  | succ fuel ih =>
    obtain ⟨state, firstBlock⟩ := u
    unfold VisionUnpadder.unpadLoop
    cases state with
    | initial | done => cases hnext
    | readingCommand =>
      cases hnext
      rcases data with _ | ⟨b, data⟩
      · exact outOfHeader_returned ⟨.command, firstBlock⟩ hfirst
      simp only [length_cons, rank] at hfuel
      rcases hc : UnpadCommand.tryFrom b with _ | command
      · have hread : readByte ⟨.command, firstBlock⟩ b = ([], .stop (.invalid b firstBlock)) := by
          simp only [readByte, hc]
        rw [resume_go, scan_silent hread]
        simp only [hc]
        rw [tryFrom_error hc]
        rfl
      have hread : readByte ⟨.command, firstBlock⟩ b =
          ([], .go ⟨.contentLength command none, firstBlock⟩) := by
        simp only [readByte, hc]
      rw [resume_go, scan_silent hread]
      simp only [hc]
      exact ih ⟨.readingContentLength command none, firstBlock⟩ accumulated data _ rfl hfirst
        (by simp only [rank]; omega)
    | readingContentLength command firstByte =>
      cases hnext
      rcases data with _ | ⟨b, data⟩
      · exact outOfHeader_returned ⟨.contentLength command firstByte, firstBlock⟩ hfirst
      simp only [length_cons, rank] at hfuel
      cases firstByte <;> rw [resume_go, scan_silent rfl]
      · exact ih ⟨.readingContentLength command (some b), firstBlock⟩ accumulated data _ rfl
          hfirst (by simp only [rank]; omega)
      exact ih ⟨.readingPaddingLength command _ none, firstBlock⟩ accumulated data _ rfl
        hfirst (by simp only [rank]; omega)
    | readingPaddingLength command contentLen firstByte =>
      cases hnext
      rcases data with _ | ⟨b, data⟩
      · exact outOfHeader_returned ⟨.paddingLength command contentLen firstByte, firstBlock⟩ hfirst
      simp only [length_cons, rank] at hfuel
      cases firstByte <;> rw [resume_go, scan_silent rfl]
      · exact ih ⟨.readingPaddingLength command contentLen (some b), firstBlock⟩ accumulated data
          _ rfl hfirst (by simp only [rank]; omega)
      exact ih ⟨.readingContent command [] contentLen.toNat _, firstBlock⟩ accumulated data _
        rfl hfirst (by simp only [rank]; omega)
    | readingContent command partialContent remaining paddingLen =>
      cases hnext
      simp only [rank] at hfuel
      dsimp only
      split
      next hout =>
        obtain ⟨hpos, rfl⟩ := hout
        obtain ⟨more, rfl⟩ := Nat.exists_eq_succ_of_ne_zero hpos.ne'
        exact outOfData_returned ⟨.content command more paddingLen, firstBlock⟩
          (accumulated ++ partialContent)
      rename_i hsome
      have hlen := @length_drop _ (min remaining data.length) data
      rw [scan_content, returned_append]
      simp only [pending]
      split
      next hzero =>
        rw [hzero, append_assoc]
        exact ih ⟨.readingPadding command _ paddingLen, firstBlock⟩ accumulated _ _ rfl hfirst
          (by simp only [rank]; omega)
      rename_i hmore
      have hne : data ≠ [] := fun h0 => hsome ⟨by omega, h0⟩
      have hdata := length_pos_of_ne_nil hne
      rw [append_assoc]
      exact ih ⟨.readingContent command _ (remaining - min remaining data.length) paddingLen,
        firstBlock⟩ accumulated _ _ rfl hfirst (by simp only [rank]; omega)
    | readingPadding command content remaining =>
      cases hnext
      simp only [rank] at hfuel
      dsimp only
      split
      next hout =>
        obtain ⟨hpos, rfl⟩ := hout
        obtain ⟨more, rfl⟩ := Nat.exists_eq_succ_of_ne_zero hpos.ne'
        exact outOfData_returned ⟨.padding command more, firstBlock⟩ (accumulated ++ content)
      rename_i hsome
      have hlen := @length_drop _ (min remaining data.length) data
      rw [scan_padding]
      simp only [pending]
      split
      next hzero =>
        rw [hzero]
        cases command with
        | continue_ =>
          have hnext := ih ⟨.readingCommand, false⟩ (accumulated ++ content)
            (data.drop (min remaining data.length)) _ rfl (by simp) (by simp only [rank]; omega)
          simp only [pending, append_nil] at hnext
          exact hnext
        | end_ | direct => simp [returned, atPadding, afterBlock]
      rename_i hmore
      have hne : data ≠ [] := fun h0 => hsome ⟨by omega, h0⟩
      have hdata := length_pos_of_ne_nil hne
      exact ih ⟨.readingPadding command content (remaining - min remaining data.length),
        firstBlock⟩ accumulated _ _ rfl hfirst (by simp only [rank]; omega)

/-- **A packet behind the UUID** is scanned. -/
theorem unpad_position (data) : p.unpadder.unpad data = returned [] (scan readByte p data) := by
  obtain ⟨place, firstBlock⟩ := p
  have hrank : rank place.state < 3 := by cases place <;> simp [Place.state, rank]
  have hnext : nextOf firstBlock place.state = some (.go ⟨place, firstBlock⟩) := by
    cases place <;> rfl
  have hpending : pending place.state = [] := by cases place <;> rfl
  have h := unpadLoop_returned (3 * data.length + 3) ⟨place.state, firstBlock⟩ [] data _ hnext
    (fun _ => rfl) (by dsimp only; omega)
  rw [hpending] at h
  exact h

/-! ## Before the UUID -/

section
variable (uuid : Uuid) (data : List UInt8)

theorem unpad_new : (VisionUnpadder.new uuid).unpad data =
      if data.length < 16 then (.ok .none, .new uuid)
      else if data.take 16 ≠ uuid.val then (.ok ⟨data, none⟩, .new uuid)
      else VisionUnpadder.unpadLoop (3 * data.length + 2) ⟨.readingCommand, true⟩ []
        (data.drop 16) := rfl

theorem unpad_short (h : data.length < 16) :
    (VisionUnpadder.new uuid).unpad data = (.ok .none, .new uuid) := by
  rw [unpad_new, if_pos h]

theorem unpad_other (h : 16 ≤ data.length) (hne : data.take 16 ≠ uuid.val) :
    (VisionUnpadder.new uuid).unpad data = (.ok ⟨data, none⟩, .new uuid) := by
  rw [unpad_new, if_neg (by omega), if_pos hne]

/-- **The first packet of blocks.** -/
theorem unpad_uuid (h : data.take 16 = uuid.val) :
    (VisionUnpadder.new uuid).unpad data = returned [] (scan readByte start (data.drop 16)) := by
  have hlen : 16 ≤ data.length := by
    have := congrArg List.length h
    rw [length_take, uuid.property] at this
    omega
  rw [unpad_new, if_neg (by omega), if_neg (by simpa using h)]
  exact unpadLoop_returned (3 * data.length + 2) ⟨.readingCommand, true⟩ [] (data.drop 16) _ rfl
    (fun _ => rfl) (by simp only [rank, length_drop]; omega)

theorem unpad_done (firstBlock) : VisionUnpadder.unpad ⟨.done, firstBlock⟩ data =
      (.error VisionUnpadder.alreadyDone, ⟨.done, firstBlock⟩) := rfl

end

/-! ## Packets in a row -/

/-- Packets in a row, up to the first error: the content of all calls, and the command of the last
call or the error. -/
def feedFrom (u : VisionUnpadder) (content : List UInt8) (last : Option UnpadCommand) :
    List (List UInt8) → List UInt8 × Except IoError (Option UnpadCommand)
  | [] => (content, .ok last)
  | packet :: packets =>
    match u.unpad packet with
    | (.error e, _) => (content, .error e)
    | (.ok result, u) => feedFrom u (content ++ result.content) result.command packets

def feed (uuid : Uuid) (packets : List (List UInt8)) :
    List UInt8 × Except IoError (Option UnpadCommand) :=
  feedFrom (.new uuid) [] none packets

/-- What packets behind the UUID come to when they are one packet. -/
def outcome (content : List UInt8) (out : List UInt8 × Ended Position Stop UInt8) :
    List UInt8 × Except IoError (Option UnpadCommand) :=
  match out.2 with
  | .more p => (content ++ out.1, .ok p.command)
  | .stopped (.final command) rest => (content ++ out.1 ++ rest, .ok (some command))
  | .stopped (.invalid commandByte _) _ => (content, .error (invalidCommand commandByte))

def meetsInvalid (p : Position) (data : List UInt8) : Bool :=
  match (scan readByte p data).2 with
  | .stopped (.invalid _ _) _ => true
  | _ => false

/-- No packet follows the last block, and none with content comes before an invalid command. -/
def Undisturbed (p : Position) : List (List UInt8) → Prop
  | [] => True
  | packet :: packets =>
    match (scan readByte p packet).2 with
    | .more p' =>
      (meetsInvalid p' packets.flatten = true → (scan readByte p packet).1 = []) ∧
        Undisturbed p' packets
    | .stopped (.final _) _ => packets = []
    | .stopped (.invalid _ _) _ => True

instance Undisturbed.decidable : ∀ p packets, Decidable (Undisturbed p packets)
  | _, [] => isTrue trivial
  | p, packet :: packets => by
    unfold Undisturbed
    match (scan readByte p packet).2 with
    | .more p' =>
      have := Undisturbed.decidable p' packets
      exact inferInstanceAs (Decidable (_ ∧ _))
    | .stopped (.final _) _ => exact inferInstanceAs (Decidable (packets = []))
    | .stopped (.invalid _ _) _ => exact isTrue trivial

theorem feedFrom_content (u content last packets) : content <+:
    (feedFrom u content last packets).1 := by
  induction packets generalizing u content last with
  | nil => exact prefix_refl _
  | cons packet packets ih =>
    unfold feedFrom
    split
    · exact prefix_refl _
    · exact (prefix_append _ _).trans (ih _ _ _)

theorem feedFrom_iff (p content packets) : feedFrom p.unpadder content p.command packets =
      outcome content (scan readByte p packets.flatten) ↔ Undisturbed p packets := by
  induction packets generalizing p content with
  | nil => simp [feedFrom, outcome, scan, Undisturbed]
  | cons packet packets ih =>
    rw [feedFrom, unpad_position, flatten_cons, scan_append, Undisturbed]
    generalize scan readByte p packet = first
    obtain ⟨out, ended⟩ := first
    cases ended with
    | stopped stop =>
      cases stop with
      | invalid => simp [returned, outcome, Ended.continue]
      | final =>
        rcases packets with _ | ⟨_, _⟩
        · simp [returned, outcome, Ended.continue, feedFrom]
        simp only [returned, outcome, Ended.continue, feedFrom, unpad_done]
        simp
    | more p' =>
      have h := ih p' (content ++ out)
      have hcontent := feedFrom_content p'.unpadder (content ++ out) p'.command packets
      simp only [returned, Ended.continue, nil_append, meetsInvalid]
      generalize scan readByte p' packets.flatten = later at h
      obtain ⟨_, ended'⟩ := later
      rcases ended' with q | ⟨_ | ⟨_, _⟩, _⟩
      · simpa [outcome] using h
      · simpa [outcome] using h
      simp only [outcome, true_implies] at h ⊢
      -- the content before the error is all that can differ
      constructor
      · intro he
        rw [he] at hcontent
        have hout : out = [] := by
          have hlen := hcontent.length_le
          simp only [length_append] at hlen
          exact length_eq_zero_iff.mp (by omega)
        rw [hout, append_nil] at h he
        exact ⟨hout, h.mp he⟩
      rintro ⟨rfl, hrest⟩
      rw [append_nil] at h ⊢
      exact h.mpr hrest

/-! ## Before the UUID, packets in a row -/

section
variable (uuid : Uuid)

variable (content : List UInt8)

theorem feedFrom_short (packets) (h : ∀ packet ∈ packets, packet.length < 16) :
    feedFrom (.new uuid) content none packets = (content, .ok none) := by
  induction packets with
  | nil => rfl
  | cons packet packets ih =>
    rw [feedFrom, unpad_short uuid packet (h packet (by simp))]
    simp only [UnpadResult.none, append_nil]
    exact ih fun packet' h' => h packet' (by simp [h'])

theorem feedFrom_other (packets)
    (h : ∀ packet ∈ packets, 16 ≤ packet.length ∧ packet.take 16 ≠ uuid.val) :
    feedFrom (.new uuid) content none packets = (content ++ packets.flatten, .ok none) := by
  induction packets generalizing content with
  | nil => simp [feedFrom]
  | cons packet packets ih =>
    obtain ⟨hlen, hne⟩ := h packet (by simp)
    rw [feedFrom, unpad_other uuid packet hlen hne]
    simp only
    rw [ih (content ++ packet) fun packet' h' => h packet' (by simp [h']), flatten_cons,
      append_assoc]

theorem feedFrom_uuid (packet packets) (h : packet.take 16 = uuid.val) :
    feed uuid (packet :: packets) =
      feedFrom start.unpadder [] start.command (packet.drop 16 :: packets) := by
  rw [feed, feedFrom, unpad_uuid uuid packet h, feedFrom, unpad_position]

/-- An unpadder between two packets. -/
inductive Between : VisionUnpadder → Prop
  | new (uuid : Uuid) : Between (.new uuid)
  | position (p : Position) : Between p.unpadder
  | done (firstBlock : Bool) : Between ⟨.done, firstBlock⟩

theorem returned_between (out) : Between (returned [] out).2 := by
  obtain ⟨out, ended⟩ := out
  match ended with
  | .more p => exact .position p
  | .stopped (.final command) rest => exact .done false
  | .stopped (.invalid commandByte firstBlock) rest => exact .position ⟨.command, firstBlock⟩

theorem returned_length {p data result} (h : (returned [] (scan readByte p data)).1 = .ok result) :
    result.content.length ≤ data.length := by
  have hlen := scan_length readByte_length p data
  generalize scan readByte p data = out at h hlen
  obtain ⟨out, ended⟩ := out
  match ended with
  | .more q =>
    cases h
    simpa using hlen
  | .stopped (.final command) rest =>
    cases h
    simpa using hlen
  | .stopped (.invalid commandByte firstBlock) rest => cases h

theorem unpad_length {u} (hu : Between u) (packet) : Between (u.unpad packet).2 ∧
      ∀ result, (u.unpad packet).1 = .ok result → result.content.length ≤ packet.length := by
  cases hu with
  | new uuid =>
    by_cases hlen : packet.length < 16
    · rw [unpad_short uuid packet hlen]
      refine ⟨.new uuid, ?_⟩
      rintro _ ⟨⟩
      exact Nat.zero_le _
    by_cases huuid : packet.take 16 = uuid.val
    · rw [unpad_uuid uuid packet huuid]
      refine ⟨returned_between _, fun result h => ?_⟩
      have := returned_length h
      rw [length_drop] at this
      omega
    rw [unpad_other uuid packet (by omega) huuid]
    refine ⟨.new uuid, ?_⟩
    rintro _ ⟨⟩
    exact le_rfl
  | position =>
    rw [unpad_position]
    exact ⟨returned_between _, fun result h => returned_length h⟩
  | done firstBlock => exact ⟨.done firstBlock, fun _ h => nomatch h⟩

theorem feedFrom_length {u} (hu : Between u) (content last packets) :
    (feedFrom u content last packets).1.length ≤ content.length + packets.flatten.length := by
  induction packets generalizing u content last with
  | nil => simp [feedFrom]
  | cons packet packets ih =>
    obtain ⟨hnext, hresult⟩ := unpad_length hu packet
    rw [feedFrom, flatten_cons, length_append]
    split
    · simp only
      omega
    rename_i result u' h
    rw [h] at hnext hresult
    have h₁ := ih hnext (content ++ result.content) result.command
    have h₂ := hresult result rfl
    simp only [length_append] at h₁ ⊢
    omega

theorem feedFrom_lost (packets) (hne : ∀ packet ∈ packets, packet ≠ []) :
    (∀ packet ∈ packets, 16 ≤ packet.length ∧ packet.take 16 ≠ uuid.val) ∨
      (feedFrom (.new uuid) content none packets).1.length <
        content.length + packets.flatten.length := by
  induction packets generalizing content with
  | nil => exact .inl (by simp)
  | cons packet packets ih =>
    have hpos := length_pos_of_ne_nil (hne packet (by simp))
    rw [feedFrom, flatten_cons, length_append]
    by_cases hlen : packet.length < 16
    · right
      rw [unpad_short uuid packet hlen]
      have h := feedFrom_length (.new uuid) (content ++ []) none packets
      simp only [UnpadResult.none, append_nil] at h ⊢
      omega
    by_cases huuid : packet.take 16 = uuid.val
    · right
      rw [unpad_uuid uuid packet huuid]
      have hnext := returned_between (scan readByte start (packet.drop 16))
      split
      · simp only
        omega
      rename_i result u' h
      rw [h] at hnext
      have h₁ := feedFrom_length hnext (content ++ result.content) result.command packets
      have h₂ := returned_length (congrArg Prod.fst h)
      simp only [length_append, length_drop] at h₁ h₂ ⊢
      omega
    rw [unpad_other uuid packet (by omega) huuid]
    rcases ih (content ++ packet) fun packet' h' => hne packet' (by simp [h']) with hall | hlt
    · left
      intro packet' h'
      rcases mem_cons.mp h' with rfl | h'
      · exact ⟨by omega, huuid⟩
      · exact hall packet' h'
    right
    rw [length_append] at hlt
    simp only
    omega

/-! ## Two ways to cut a stream -/

/-- The packets without the UUID in front. -/
def behindUuid : List (List UInt8) → List (List UInt8)
  | [] => []
  | packet :: packets => packet.drop 16 :: packets

def FirstHasUuid (packets : List (List UInt8)) : Prop :=
  ∀ packet ∈ packets.head?, 16 ≤ packet.length

/-- A cut that does no harm. A stream of blocks has its UUID in the first packet, no packet behind
the last block and no content before the packet of an invalid command. Of any other stream each
packet has 16 bytes that are not the UUID, unless the stream is shorter. -/
def SoundCut (uuid : Uuid) (packets : List (List UInt8)) : Prop :=
  16 ≤ packets.flatten.length →
    if packets.flatten.take 16 = uuid.val then
      FirstHasUuid packets ∧ Undisturbed start (behindUuid packets)
    else ∀ packet ∈ packets, 16 ≤ packet.length ∧ packet.take 16 ≠ uuid.val

instance (packets : List (List UInt8)) : Decidable (FirstHasUuid packets) :=
  inferInstanceAs (Decidable (∀ packet ∈ packets.head?, 16 ≤ packet.length))

instance (packets : List (List UInt8)) : Decidable (SoundCut uuid packets) :=
  inferInstanceAs (Decidable (_ → ite _ _ _))

theorem undisturbed_single (p data) : Undisturbed p [data] := by
  unfold Undisturbed
  match (scan readByte p data).2 with
  | .more q => exact ⟨(fun h => nomatch h), trivial⟩
  | .stopped (.final command) rest => rfl
  | .stopped (.invalid commandByte firstBlock) rest => trivial

theorem soundCut_single (stream) : SoundCut uuid [stream] := by
  intro hlen
  simp only [flatten_cons, flatten_nil, append_nil] at hlen ⊢
  split
  · exact ⟨by simpa [FirstHasUuid] using hlen, undisturbed_single start _⟩
  next hne => simpa using ⟨hlen, hne⟩

/-! A cut against no cut, for each kind of stream. -/

section
variable {uuid} {packets : List (List UInt8)}

theorem feed_flatten_short (hshort : packets.flatten.length < 16) :
    feed uuid packets = feed uuid [packets.flatten] := by
  have hall : ∀ packet ∈ packets, packet.length < 16 := fun packet h =>
    Nat.lt_of_le_of_lt (sublist_flatten_of_mem h).length_le hshort
  have hone : ∀ packet ∈ [packets.flatten], packet.length < 16 := fun packet h => by
    rw [mem_singleton.mp h]
    exact hshort
  rw [feed, feed, feedFrom_short uuid [] packets hall, feedFrom_short uuid [] _ hone]

theorem feed_flatten_uuid (huuid : packets.flatten.take 16 = uuid.val)
    (hfirst : FirstHasUuid packets) :
    feed uuid packets = feed uuid [packets.flatten] ↔ Undisturbed start (behindUuid packets) := by
  rcases packets with _ | ⟨packet, packets⟩
  · have := congrArg List.length huuid
    rw [uuid.property] at this
    cases this
  have hpacket : 16 ≤ packet.length := hfirst packet rfl
  have htake : packet.take 16 = uuid.val := by
    rwa [flatten_cons, take_append_of_le_length hpacket] at huuid
  have hdrop : (packet :: packets).flatten.drop 16 = (packet.drop 16 :: packets).flatten := by
    rw [flatten_cons, flatten_cons, drop_append_of_le_length hpacket]
  have hwhole := (feedFrom_iff start [] [(packet.drop 16 :: packets).flatten]).mpr
    (undisturbed_single start _)
  rw [flatten_singleton] at hwhole
  rw [feedFrom_uuid uuid packet packets htake, feedFrom_uuid uuid _ [] huuid, hdrop, hwhole]
  exact feedFrom_iff start [] (packet.drop 16 :: packets)

theorem feed_flatten_other (hlen : 16 ≤ packets.flatten.length)
    (hother : packets.flatten.take 16 ≠ uuid.val) :
    feed uuid [packets.flatten] = (packets.flatten, .ok none) := by
  have hone : ∀ packet ∈ [packets.flatten], 16 ≤ packet.length ∧ packet.take 16 ≠ uuid.val :=
    fun packet h => by
      rw [mem_singleton.mp h]
      exact ⟨hlen, hother⟩
  rw [feed, feedFrom_other uuid [] _ hone, flatten_singleton, nil_append]

theorem feed_of_soundCut (h : SoundCut uuid packets) :
    feed uuid packets = feed uuid [packets.flatten] := by
  by_cases hlen : 16 ≤ packets.flatten.length
  · have hcut := h hlen
    split at hcut
    next huuid => exact (feed_flatten_uuid huuid hcut.1).mpr hcut.2
    next hother =>
      rw [feed_flatten_other hlen hother, feed, feedFrom_other uuid [] packets hcut, nil_append]
  · exact feed_flatten_short (not_le.mp hlen)

/-- Packets come to the same content, command or error as the same stream cut in any harmless
way. -/
def CutsAgree (uuid : Uuid) (packets : List (List UInt8)) : Prop :=
  ∀ packets' : List (List UInt8), packets'.flatten = packets.flatten → SoundCut uuid packets' →
    feed uuid packets = feed uuid packets'

/-- **When unpadding does not depend on the cut.** Packets that are cut in a harmless way come to
the same content, command or error as the same stream cut in any other harmless way. No other cut
does, unless the stream starts with the UUID and the first packet does not hold all of it. -/
theorem unpad_cuts_agree (uuid : Uuid) (packets : List (List UInt8))
    (hne : ∀ packet ∈ packets, packet ≠ []) : (SoundCut uuid packets → CutsAgree uuid packets) ∧
    ((packets.flatten.take 16 = uuid.val → FirstHasUuid packets) →
      CutsAgree uuid packets → SoundCut uuid packets) := by
  constructor
  · intro h packets' hflat h'
    rw [feed_of_soundCut h, feed_of_soundCut h', hflat]
  intro hfirst h hlen
  have hone := h [packets.flatten] flatten_singleton (soundCut_single uuid _)
  split
  next huuid => exact ⟨hfirst huuid, (feed_flatten_uuid huuid (hfirst huuid)).mp hone⟩
  rename_i hother
  rw [feed_flatten_other hlen hother] at hone
  rcases feedFrom_lost uuid [] packets hne with hall | hlt
  · exact hall
  rw [← feed, hone] at hlt
  exact absurd hlt (by simp)

end

end

def sampleUuid : Uuid := ⟨[1, 2, 3, 4, 5, 6, 7, 8, 9, 10, 11, 12, 13, 14, 15, 16], rfl⟩

/-- A Continue block and an End block, with a byte behind them, cut in the length of the first
block and in the padding of the second. -/
def samplePackets : List (List UInt8) :=
  [sampleUuid.val ++ [0, 0], [1, 0, 0, 65, 1, 0, 1, 0, 2, 66, 9], [9, 7]]

theorem unpad_cuts_agree_blocks :
    feed sampleUuid samplePackets = feed sampleUuid [samplePackets.flatten] ∧
      feed sampleUuid samplePackets = ([65, 66, 7], .ok (some .end_)) :=
  ⟨(unpad_cuts_agree sampleUuid samplePackets (by decide)).1 (by decide)
    [samplePackets.flatten] flatten_singleton (by decide), by decide⟩

/-- **A first packet without the whole UUID is lost**, and the block behind it with it. -/
theorem short_first_packet_lost :
    feed sampleUuid [sampleUuid.val ++ [1, 0, 1, 0, 0, 65]] = ([65], .ok (some .end_)) ∧
      feed sampleUuid [sampleUuid.val.take 8, sampleUuid.val.drop 8 ++ [1, 0, 1, 0, 0, 65]] =
        ([], .ok none) := by
  decide

end Shoes.Vless.Unpadding

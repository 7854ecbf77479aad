import SampleStream.Proofs.Bytes

/-!
# Where a scan is refused

The complaint of a scan is about the first piece of the text that is no lexeme, and it shows that piece
(`tokenize_located`).
-/

namespace SampleStream

/-- The piece of a text that a scan complains about. -/
def SyntaxError.Cause.piece? : Cause → Option String
  | .invalidToken text | .integerOutOfRange text | .sampleOutOfRange text => some text
  | _ => none

theorem Scan.Flaw.piece?_cause (flaw : Flaw) (text : List Char) : (flaw.cause text).piece? = some (.ofList text) := by
  cases flaw <;> rfl

/-- The scan of the source reads some tokens and is refused at a piece of it. -/
structure Located (source : String) (e : SyntaxError) (before text after : String) (ts : List Token) : Prop where
  cut : source = before ++ text ++ after
  span : e.span = ⟨before.utf8ByteSize, (before ++ text).utf8ByteSize⟩
  start : String.Pos.Raw.IsValid source ⟨e.span.start⟩
  stop : String.Pos.Raw.IsValid source ⟨e.span.stop⟩
  nonempty : e.span.start < e.span.stop
  inside : e.span.stop ≤ source.utf8ByteSize
  unbroken : ∀ c ∈ text.toList, Scan.isBlank c = false
  piece : e.cause.piece? = some text
  /-- what is in front of the piece has nothing wrong, and its tokens are all that the scan reads -/
  front : tokenize before = .ok (ts ++ [⟨.done, .point e.span.start⟩])
  run : ByteScan.run? source.toList 0 = some (ts, some e)

theorem located {front rest : List Char} {c : Char} {ts : List Token} {e : SyntaxError}
    (hfront : Front (c :: rest) 0 front ts) (h : Scan.Refuses (utf8Length front) c rest e) :
    Located (.ofList (front ++ c :: rest)) e (.ofList front) (.ofList (Scan.cut c rest).text)
      (.ofList (Scan.cut c rest).rest) ts := by
  have hrun := ByteScan.run?_of_refuses hfront h
  obtain ⟨hblank, flaw, hreading, rfl⟩ := h
  have hcut : (String.ofList (front ++ c :: rest)) =
      .ofList front ++ .ofList (Scan.cut c rest).text ++ .ofList (Scan.cut c rest).rest := by
    rw [← String.ofList_append, ← String.ofList_append, List.append_assoc, Scan.cut_text_append_rest]
  have hstart : utf8Length front = (String.ofList front).utf8ByteSize := (utf8ByteSize_ofList front).symm
  have hstop : utf8Length front + utf8Length (Scan.cut c rest).text =
      (String.ofList front ++ .ofList (Scan.cut c rest).text).utf8ByteSize := by
    rw [String.utf8ByteSize_append, utf8ByteSize_ofList, utf8ByteSize_ofList]
  constructor
  case cut => exact hcut
  case span => rw [← hstop, ← hstart]
  case start =>
    rw [String.Pos.Raw.isValid_iff_exists_append]
    refine ⟨_, _, hcut.trans String.append_assoc, ?_⟩
    rw [hstart]
    rfl
  case stop =>
    rw [String.Pos.Raw.isValid_iff_exists_append]
    refine ⟨_, _, hcut, ?_⟩
    rw [hstop]
    rfl
  case nonempty => exact Nat.lt_add_of_pos_right (utf8Length_pos (Scan.cut_text_ne_nil c rest))
  case inside =>
    rw [hcut, String.utf8ByteSize_append, ← hstop]
    exact Nat.le_add_right _ _
  case unbroken =>
    rw [String.toList_ofList]
    exact Scan.isBlank_of_mem_cut hblank rest
  case piece => exact flaw.piece?_cause _
  case front =>
    have hclosed := hfront.closed
    rw [Nat.zero_add] at hclosed
    rw [tokenize, String.toList_ofList]
    exact hclosed
  case run =>
    rw [String.toList_ofList]
    exact hrun

/-- A text that is refused has no cut inside a character on the way, and the complaint is about its first piece that
is no lexeme: the span is that piece, which has neither a blank in it nor a part of a character, and the cause shows
it. All in front of it is scanned by itself, to the tokens that were read before the complaint. -/
theorem tokenize_located (source : String) (e : SyntaxError) (h : tokenize source = .error e) :
    ByteScan.tokenize? source = some (.error e) ∧
      ∃ before text after ts, Located source e before text after ts := by
  refine ⟨by rw [ByteScan.tokenize?_eq, h], ?_⟩
  obtain ⟨front, c, rest, ts, hsource, hfront, hrefuses⟩ := Scan.front_of_error h
  rw [Nat.zero_add] at hrefuses
  have hlocated := located hfront hrefuses
  rw [← hsource, String.ofList_toList] at hlocated
  exact ⟨_, _, _, ts, hlocated⟩

theorem tokenize_located_accent : tokenize "f\t3é+" = .error ⟨⟨3, 5⟩, .invalidToken "é"⟩ ∧
    ∃ before text after ts, Located "f\t3é+" ⟨⟨3, 5⟩, .invalidToken "é"⟩ before text after ts := by
  have h : tokenize "f\t3é+" = .error ⟨⟨3, 5⟩, .invalidToken "é"⟩ := by decide +kernel
  exact ⟨h, (tokenize_located _ _ h).2⟩

end SampleStream

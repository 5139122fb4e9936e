import Htap.Parser.Lexemes

/-!
Where the lexer stands. Every reader of the lexer passes a piece of the input and
counts lines and columns over it, so a position is known from what lies before it.
-/

namespace Htap.Parser

open Storage

/-! ## Positions -/

/-- The position of the character behind `before`, counted by the newlines in it. -/
def positionBehind (before : Bytes) : SourcePosition :=
  ⟨before.length, before.count 10 + 1, (before.reverse.takeWhile (· != 10)).length + 1⟩

theorem positionBehind_nil : positionBehind [] = {} := rfl

theorem positionBehind_after (before : Bytes) (c : UInt8) :
    (positionBehind before).after c = positionBehind (before ++ [c]) := by
  unfold SourcePosition.after positionBehind
  rw [List.reverse_append, List.reverse_singleton, List.singleton_append, List.length_append,
    List.count_append, List.length_singleton]
  split
  · rename_i hc
    subst hc
    rw [List.takeWhile_cons_of_neg (by simp)]
    rfl
  · rename_i hc
    rw [List.takeWhile_cons_of_pos (by simpa using hc), List.count_singleton,
      if_neg (by simpa using hc), List.length_cons]

/-- Going over a text one character at a time. -/
theorem foldl_after (before text : Bytes) :
    text.foldl SourcePosition.after (positionBehind before) = positionBehind (before ++ text) := by
  induction text generalizing before with
  | nil => rw [List.foldl_nil, List.append_nil]
  | cons c text ih =>
    rw [List.foldl_cons, positionBehind_after, ih, List.append_assoc, List.singleton_append]

/-! ## What a reader passes -/

/-- `Passes lexer piece next`: `piece` is what the input has between `lexer` and `next`. -/
structure Passes (lexer : Lexer) (piece : Bytes) (next : Lexer) : Prop where
  input_eq : lexer.input = piece ++ next.input
  position_eq : next.position = piece.foldl SourcePosition.after lexer.position

/-- Some piece of the input lies between the two. -/
def Reaches (lexer next : Lexer) : Prop := ∃ piece, Passes lexer piece next

theorem Passes.trans {lexer middle next : Lexer} {first second : Bytes}
    (h : Passes lexer first middle) (h' : Passes middle second next) :
    Passes lexer (first ++ second) next := by
  constructor
  · rw [h.input_eq, h'.input_eq, List.append_assoc]
  · rw [h'.position_eq, h.position_eq, List.foldl_append]

theorem Reaches.refl (lexer : Lexer) : Reaches lexer lexer := ⟨[], rfl, rfl⟩

theorem Reaches.trans {lexer middle next : Lexer} (h : Reaches lexer middle)
    (h' : Reaches middle next) : Reaches lexer next := by
  obtain ⟨first, hfirst⟩ := h
  obtain ⟨second, hsecond⟩ := h'
  exact ⟨first ++ second, hfirst.trans hsecond⟩

theorem reaches_advance (lexer : Lexer) : Reaches lexer lexer.advance := by
  obtain ⟨input, position⟩ := lexer
  cases input with
  | nil => exact Reaches.refl _
  | cons c rest => exact ⟨[c], rfl, rfl⟩

theorem passes_advanceWhile (test : UInt8 → Bool) (lexer : Lexer) :
    Passes lexer (lexer.input.takeWhile test) (lexer.advanceWhile test) := by
  constructor
  · exact List.takeWhile_append_dropWhile.symm
  · rfl

theorem reaches_advanceWhile (test : UInt8 → Bool) (lexer : Lexer) :
    Reaches lexer (lexer.advanceWhile test) := ⟨_, passes_advanceWhile test lexer⟩

private theorem reaches_readFraction {start : SourcePosition} {text : Bytes} {lexer next : Lexer}
    {token : Token} (h : lexer.readFraction start text = .ok (token, next)) :
    Reaches lexer next := by
  unfold Lexer.readFraction at h
  split at h
  · dsimp only at h
    split at h
    · cases h
      exact (reaches_advance lexer).trans (reaches_advanceWhile isDigit lexer.advance)
    · cases h
  · cases h
    exact Reaches.refl lexer

private theorem reaches_readDigits {start : SourcePosition} {sign : Bytes} {lexer next : Lexer}
    {token : Token} (h : lexer.readDigits start sign = .ok (token, next)) :
    Reaches lexer next := by
  unfold Lexer.readDigits at h
  split at h
  · exact (reaches_advanceWhile isDigit lexer).trans (reaches_readFraction h)
  · cases h

private theorem reaches_readNumber {lexer next : Lexer} {token : Token}
    (h : lexer.readNumber = .ok (token, next)) : Reaches lexer next := by
  unfold Lexer.readNumber at h
  split at h
  · exact (reaches_advance lexer).trans (reaches_readDigits h)
  · exact reaches_readDigits h

private theorem reaches_cons (c : UInt8) (rest : Bytes) (position : SourcePosition) :
    Reaches ⟨c :: rest, position⟩ ⟨rest, position.after c⟩ := ⟨[c], rfl, rfl⟩

private theorem reaches_readStringBody {input text : Bytes} {position : SourcePosition}
    {next : Lexer} (h : Lexer.readStringBody input position = some (text, next)) :
    Reaches ⟨input, position⟩ next := by
  fun_induction Lexer.readStringBody input position generalizing text next with
  | case1 => cases h
  | case2 position =>
    cases h
    exact reaches_cons 39 [] position
  | case3 position rest ih =>
    obtain ⟨⟨text', next'⟩, hbody, heq⟩ := Option.map_eq_some_iff.mp h
    cases heq
    have hquotes := (reaches_cons 39 (39 :: rest) position).trans (reaches_cons 39 rest _)
    exact hquotes.trans (ih hbody)
  | case4 position d rest hd =>
    cases h
    exact reaches_cons 39 (d :: rest) position
  | case5 c rest position hc ih =>
    obtain ⟨⟨text', next'⟩, hbody, heq⟩ := Option.map_eq_some_iff.mp h
    cases heq
    exact (reaches_cons c rest position).trans (ih hbody)

private theorem reaches_readString {lexer next : Lexer} {token : Token}
    (h : lexer.readString = .ok (token, next)) : Reaches lexer next := by
  unfold Lexer.readString at h
  split at h
  · split at h
    · rename_i text rest hbody
      cases h
      exact (reaches_advance lexer).trans (reaches_readStringBody hbody)
    · cases h
  · cases h

private theorem reaches_readSymbol {c : UInt8} {lexer next : Lexer} {token : Token}
    (h : lexer.readSymbol c = .ok (token, next)) : Reaches lexer next := by
  have hone := reaches_advance lexer
  have htwo := hone.trans (reaches_advance lexer.advance)
  unfold Lexer.readSymbol at h
  dsimp only at h
  split at h
  · cases h
    exact hone
  · split_ifs at h
    all_goals cases h
    all_goals first | exact hone | exact htwo

theorem reaches_readToken {lexer next : Lexer} {token : Token}
    (h : lexer.readToken = .ok (token, next)) : Reaches lexer next := by
  unfold Lexer.readToken at h
  split at h
  · cases h
    exact Reaches.refl lexer
  · split_ifs at h
    · cases h
      exact reaches_advanceWhile isIdentifierPart lexer
    · exact reaches_readNumber h
    · exact reaches_readString h
    · exact reaches_readSymbol h

/-! ## The slice of a token -/

/-- The piece of the input a token was read from: its text, or for a string literal
its text with the quotes back. -/
structure Token.IsSlice (token : Token) (slice : Bytes) : Prop where
  text_eq : token.type ≠ .stringLiteral → token.text = slice
  quoted_eq : token.type = .stringLiteral → quoted token.text = slice

theorem Lexeme.slice {input text rest : Bytes} {type : TokenType} (position : SourcePosition)
    (h : Lexeme keywordType input type text rest) :
    ∃ slice, slice ≠ [] ∧ input = slice ++ rest ∧ Token.IsSlice ⟨type, position, text⟩ slice := by
  have hlength := h.length_lt
  suffices hslice : ∃ slice, input = slice ++ rest ∧ Token.IsSlice ⟨type, position, text⟩ slice by
    obtain ⟨slice, hinput, his⟩ := hslice
    refine ⟨slice, ?_, hinput, his⟩
    rintro rfl
    rw [hinput, List.nil_append] at hlength
    exact Nat.lt_irrefl _ hlength
  cases h with
  | word hword hrest =>
    refine ⟨text, rfl, fun _ => rfl, fun htype => ?_⟩
    have htype : keywordType text = .stringLiteral := htype
    exact absurd (by rw [htype]; simp [wordlessTypes]) (keywordType_ne text).2.2
  | integer => exact ⟨_, rfl, fun _ => rfl, nofun⟩
  | double => exact ⟨_, rfl, fun _ => rfl, nofun⟩
  | string => exact ⟨_, rfl, fun htype => absurd rfl htype, fun _ => rfl⟩
  | symbol hmem =>
    have htable : ∀ entry ∈ symbols, entry.2 ≠ .stringLiteral := by decide
    exact ⟨text, rfl, fun _ => rfl, fun htype => absurd htype (htable _ hmem)⟩

/-- What one call of `NextToken` does behind `before`: it skips whitespace and reads
the slice of its token, which is empty at the end of the input only. -/
structure ReadBehind (before : Bytes) (lexer : Lexer) (token : Token) (next : Lexer)
    (gap slice : Bytes) : Prop where
  input_eq : lexer.input = gap ++ slice ++ next.input
  isSpace_gap : ∀ c ∈ gap, isSpace c = true
  position_eq : token.position = positionBehind (before ++ gap)
  next_position : next.position = positionBehind (before ++ gap ++ slice)
  isSlice : token.IsSlice slice
  of_endOfFile : token.type = .endOfFile → slice = [] ∧ next.input = []
  of_token : token.type ≠ .endOfFile → slice ≠ []

theorem nextToken_ok {before : Bytes} {lexer next : Lexer} {token : Token}
    (hposition : lexer.position = positionBehind before)
    (h : lexer.nextToken = .ok (token, next)) :
    ∃ gap slice, ReadBehind before lexer token next gap slice := by
  have hgap := passes_advanceWhile isSpace lexer
  have hspace : ∀ c ∈ lexer.input.takeWhile isSpace, isSpace c = true :=
    fun _ hc => List.mem_takeWhile_imp hc
  have hstart : lexer.skipWhitespace.position =
      positionBehind (before ++ lexer.input.takeWhile isSpace) := by
    rw [Lexer.skipWhitespace, hgap.position_eq, hposition, foldl_after]
  rw [Lexer.nextToken] at h
  rcases readToken_eq lexer.skipWhitespace with ⟨hend, hread⟩ |
    ⟨type, text, rest, position, hlexeme, hread⟩ | ⟨message, detail, position, hread⟩
  · rw [hread] at h
    cases h
    refine ⟨_, [], ?_, hspace, hstart, ?_, ⟨fun _ => rfl, nofun⟩, fun _ => ⟨rfl, hend⟩,
      fun h => absurd rfl h⟩
    · rw [List.append_nil]
      exact hgap.input_eq
    · rw [List.append_nil]
      exact hstart
  · obtain ⟨slice, hne, hinput, hslice⟩ := hlexeme.slice lexer.skipWhitespace.position
    obtain ⟨piece, hpiece⟩ := reaches_readToken hread
    -- both are what the input has in front of the rest
    have hsame : slice = piece := List.append_cancel_right (hinput.symm.trans hpiece.input_eq)
    subst hsame
    rw [hread] at h
    cases h
    refine ⟨_, slice, ?_, hspace, hstart, ?_, hslice, ?_, fun _ => hne⟩
    · rw [List.append_assoc, ← hinput]
      exact hgap.input_eq
    · rw [hpiece.position_eq, hstart, foldl_after]
    · intro hend
      exact absurd hend hlexeme.type_ne.1
  · rw [hread] at h
    cases h

theorem nextToken_error {lexer : Lexer} {failure : Failure} (h : lexer.nextToken = .error failure) :
    ∃ message detail position, failure = .parseError message detail position := by
  rw [Lexer.nextToken] at h
  rcases readToken_eq lexer.skipWhitespace with ⟨hend, hread⟩ |
    ⟨type, text, rest, position, hlexeme, hread⟩ | ⟨message, detail, position, hread⟩
  · rw [hread] at h
    cases h
  · rw [hread] at h
    cases h
  · rw [hread] at h
    cases h
    exact ⟨message, detail, position, rfl⟩

end Htap.Parser

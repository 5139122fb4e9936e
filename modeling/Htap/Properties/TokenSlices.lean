import Htap.Parser.Positions

/-!
The tokens of a whole input: what `NextToken`, called until it meets the end or
throws, cuts the input into.
-/

namespace Htap.Parser

open Storage

/-- How a number of calls of `NextToken` ends. -/
inductive LexerEnd where
  | endOfFile
  | failed (failure : Failure)
  | unfinished
  deriving DecidableEq

/-- The tokens of at most so many calls of `NextToken`, up to the `EndOfFile`. -/
def Lexer.tokens : Nat → Lexer → List Token × LexerEnd
  | 0, _ => ([], .unfinished)
  | calls + 1, lexer =>
    match lexer.nextToken with
    | .error failure => ([], .failed failure)
    | .ok (token, next) =>
      if token.type = .endOfFile then ([token], .endOfFile)
      else (token :: (tokens calls next).1, (tokens calls next).2)

/-- The bytes of `input` from `start` up to `stop`. -/
def between (input : Bytes) (start stop : Nat) : Bytes := (input.drop start).take (stop - start)

end Htap.Parser

namespace Htap.Properties

open Storage Htap.Parser

/-- From `start` on, the tokens are slices of the input in their order, and only
whitespace lies between `start` and the first of them and between two of them. -/
def Partitions (input : Bytes) : Nat → List Token → Prop
  | _, [] => True
  | start, token :: tokens => ∃ stop,
      start ≤ token.position.pos ∧ token.position.pos ≤ stop ∧ stop ≤ input.length ∧
      (∀ c ∈ between input start token.position.pos, isSpace c = true) ∧
      token.IsSlice (between input token.position.pos stop) ∧
      (token.type ≠ .endOfFile → token.position.pos < stop) ∧
      token.position = positionBehind (input.take token.position.pos) ∧
      Partitions input stop tokens

/-- The last token is the `EndOfFile`, and it stands behind the whole input. -/
def EndsAt (input : Bytes) (tokens : List Token) : Prop :=
  ∃ token ∈ tokens.getLast?, token.type = .endOfFile ∧ token.position.pos = input.length

private theorem between_append (before piece rest : Bytes) :
    between (before ++ piece ++ rest) before.length (before ++ piece).length = piece := by
  rw [between, List.append_assoc, List.drop_left, List.length_append, Nat.add_sub_cancel_left,
    List.take_left]

/-- One token read behind `before` and what the tokens behind it cut the rest into. -/
private theorem partitions_cons {before gap slice : Bytes} {lexer next : Lexer} {token : Token}
    {tokens : List Token} (h : ReadBehind before lexer token next gap slice)
    (htokens : Partitions (before ++ gap ++ slice ++ next.input) (before ++ gap ++ slice).length
      tokens) :
    Partitions (before ++ lexer.input) before.length (token :: tokens) := by
  have hpos : token.position.pos = (before ++ gap).length := by rw [h.position_eq]; rfl
  have hinput : before ++ lexer.input = before ++ gap ++ slice ++ next.input := by
    rw [h.input_eq, List.append_assoc, List.append_assoc, List.append_assoc]
  rw [hinput]
  refine ⟨(before ++ gap ++ slice).length, ?_, ?_, ?_, ?_, ?_, ?_, ?_, htokens⟩
  · rw [hpos, List.length_append]
    exact Nat.le_add_right _ _
  · rw [hpos, @List.length_append _ (before ++ gap)]
    exact Nat.le_add_right _ _
  · rw [@List.length_append _ (before ++ gap ++ slice)]
    exact Nat.le_add_right _ _
  · rw [hpos, List.append_assoc (before ++ gap), between_append]
    exact h.isSpace_gap
  · rw [hpos, between_append]
    exact h.isSlice
  · intro htype
    have hne := List.length_pos_iff.mpr (h.of_token htype)
    rw [hpos, @List.length_append _ (before ++ gap)]
    exact Nat.lt_add_of_pos_right hne
  · rw [hpos, List.append_assoc (before ++ gap), List.take_left, h.position_eq]

/-- What the calls of `NextToken` from one place of the input on come to. -/
structure Cuts (before : Bytes) (lexer : Lexer) (result : List Token × LexerEnd) : Prop where
  ending : result.2 = .endOfFile ∧ EndsAt (before ++ lexer.input) result.1 ∨
    ∃ message detail position, result.2 = .failed (.parseError message detail position)
  length_le : result.1.length ≤ lexer.input.length + 1
  partitions : Partitions (before ++ lexer.input) before.length result.1

private theorem cuts_tokens (calls : Nat) (before : Bytes) (lexer : Lexer)
    (hposition : lexer.position = positionBehind before) (hcalls : lexer.input.length < calls) :
    Cuts before lexer (lexer.tokens calls) := by
  induction calls generalizing before lexer with
  | zero => exact absurd hcalls (Nat.not_lt_zero _)
  | succ calls ih =>
    rw [Lexer.tokens]
    cases hread : lexer.nextToken with
    | error failure =>
      obtain ⟨message, detail, position, rfl⟩ := nextToken_error hread
      exact ⟨Or.inr ⟨message, detail, position, rfl⟩, Nat.zero_le _, trivial⟩
    | ok result =>
      obtain ⟨token, next⟩ := result
      obtain ⟨gap, slice, h⟩ := nextToken_ok hposition hread
      dsimp only
      have hinput : before ++ lexer.input = before ++ gap ++ slice ++ next.input := by
        rw [h.input_eq, List.append_assoc, List.append_assoc, List.append_assoc]
      split
      · rename_i htype
        obtain ⟨rfl, hnext⟩ := h.of_endOfFile htype
        refine ⟨Or.inl ⟨rfl, token, rfl, htype, ?_⟩, Nat.le_add_left _ _,
          partitions_cons h trivial⟩
        rw [hinput, hnext, h.position_eq, List.append_nil, List.append_nil]
        rfl
      · rename_i htype
        have hlength : next.input.length < lexer.input.length := by
          have hslice := List.length_pos_iff.mpr (h.of_token htype)
          rw [h.input_eq, List.length_append, List.length_append]
          omega
        have hrest := ih (before ++ gap ++ slice) next h.next_position (by omega)
        refine ⟨?_, ?_, partitions_cons h hrest.partitions⟩
        · rw [hinput]
          rcases hrest.ending with ⟨hend, last, hlast, hlasttype⟩ | herror
          · left
            refine ⟨hend, last, ?_, hlasttype⟩
            rw [List.getLast?_cons]
            rw [Option.mem_def.mp hlast]
            rfl
          · exact Or.inr herror
        · have hle := hrest.length_le
          rw [List.length_cons]
          omega

/-- `length + 1` calls of `NextToken` meet the end of the input or a `ParseError`, and the
tokens they return partition the input. Nothing is asked of the bytes: what the lexer does
not know ends the tokens with an error, never with a loop. -/
theorem tokens_partition (input : Bytes) :
    ∃ tokens ending, Lexer.tokens (input.length + 1) ⟨input, {}⟩ = (tokens, ending) ∧
      (ending = .endOfFile ∧ EndsAt input tokens ∨
        ∃ message detail position, ending = .failed (.parseError message detail position)) ∧
      tokens.length ≤ input.length + 1 ∧ Partitions input 0 tokens := by
  have h := cuts_tokens (input.length + 1) [] ⟨input, {}⟩ positionBehind_nil.symm
    (Nat.lt_succ_self _)
  exact ⟨_, _, rfl, h.ending, h.length_le, h.partitions⟩

end Htap.Properties

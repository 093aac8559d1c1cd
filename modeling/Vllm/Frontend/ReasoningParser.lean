import Vllm.Frontend.Detokenizer

/-!
# Reasoning parsers

A model marks its reasoning by a start marker and an end marker. A parser splits the whole output
into reasoning and content, or splits it delta by delta while it streams, where it decides by the
token ids and cuts the text. Two parsers are here: the base of those that expect both markers in
the output, and the one of a family whose start marker stands in the prompt.
-/

namespace Vllm.Frontend

open Occurrence

/-- The markers of a parser and their tokens. -/
structure ThinkingTokens where
  startToken : Text
  endToken : Text
  startTokenId : TokenId
  endTokenId : TokenId
  deriving DecidableEq, Repr

/-- `DeltaMessage`, as far as a reasoning parser fills it. -/
structure DeltaMessage where
  reasoning : Option Text := none
  content : Option Text := none
  deriving DecidableEq, Repr

/-- `text[:stop]`; a negative index counts from the end. -/
def sliceTo (text : Text) (stop : Int) : Text := text.take (searchStart text stop)

/-- `text[start:]`. -/
def sliceFrom (text : Text) (start : Int) : Text := text.drop (searchStart text start)

/-- `text[start:stop]`. -/
def sliceBetween (text : Text) (start stop : Int) : Text :=
  (sliceTo text stop).drop (searchStart text start)

/-- `str.partition`. -/
def partition (text sub : Text) : Text × Text × Text :=
  match searchFrom text sub 0 with
  | some i => (text.take i, sub, text.drop (i + sub.length))
  | none => (text, [], [])

/-- `text or None`. -/
def orNone (text : Text) : Option Text := if text = [] then none else some text

/-- The output without the first start marker. -/
def stripStart (m : ThinkingTokens) (modelOutput : Text) : Text :=
  let parts := partition modelOutput m.startToken
  if parts.2.1 ≠ [] then parts.2.2 else parts.1

/-- The delta is one marker and nothing else. -/
def isLoneMarker (m : ThinkingTokens) : List TokenId → Bool
  | [token] => token == m.startTokenId || token == m.endTokenId
  | _ => false

namespace BaseThinkingReasoningParser

/-- `extract_reasoning_streaming`. -/
def extractReasoningStreaming (m : ThinkingTokens) (deltaText : Text)
    (previousTokenIds deltaTokenIds : List TokenId) : Option DeltaMessage :=
  if isLoneMarker m deltaTokenIds then none
  else if m.startTokenId ∈ previousTokenIds then
    if m.endTokenId ∈ deltaTokenIds then
      let endIndex := find deltaText m.endToken 0
      some { reasoning := some (sliceTo deltaText endIndex)
             content := orNone (sliceFrom deltaText (endIndex + m.endToken.length)) }
    else if m.endTokenId ∈ previousTokenIds then some { content := some deltaText }
    else some { reasoning := some deltaText }
  else if m.startTokenId ∈ deltaTokenIds then
    if m.endTokenId ∈ deltaTokenIds then
      let startIndex := find deltaText m.startToken 0
      let endIndex := find deltaText m.endToken 0
      some { reasoning := some (sliceBetween deltaText (startIndex + m.startToken.length) endIndex)
             content := orNone (sliceFrom deltaText (endIndex + m.endToken.length)) }
    else some { reasoning := some deltaText }
  else some { content := some deltaText }

/-- `extract_reasoning`: the reasoning and the content. -/
def extractReasoning (m : ThinkingTokens) (modelOutput : Text) : Option Text × Option Text :=
  let modelOutput := stripStart m modelOutput
  if searchFrom modelOutput m.endToken 0 = none then (some modelOutput, none)
  else
    let parts := partition modelOutput m.endToken
    (some parts.1, orNone parts.2.2)

end BaseThinkingReasoningParser

namespace Qwen3ReasoningParser

/-- The delta's text without what is before and at the first start marker. -/
def stripDelta (m : ThinkingTokens) (deltaText : Text) (deltaTokenIds : List TokenId) : Text :=
  if m.startTokenId ∈ deltaTokenIds then
    let startIdx := find deltaText m.startToken 0
    if 0 ≤ startIdx then sliceFrom deltaText (startIdx + m.startToken.length) else deltaText
  else deltaText

/-- `extract_reasoning_streaming`. -/
def extractReasoningStreaming (m : ThinkingTokens) (deltaText : Text)
    (previousTokenIds deltaTokenIds : List TokenId) : Option DeltaMessage :=
  let deltaText := stripDelta m deltaText deltaTokenIds
  if m.endTokenId ∈ deltaTokenIds then
    let endIndex := find deltaText m.endToken 0
    if 0 ≤ endIndex then
      let reasoning := sliceTo deltaText endIndex
      let content := sliceFrom deltaText (endIndex + m.endToken.length)
      if reasoning = [] ∧ content = [] then none
      else some { reasoning := orNone reasoning, content := orNone content }
    else none
  else if deltaText = [] then none
  else if m.endTokenId ∈ previousTokenIds then some { content := some deltaText }
  else some { reasoning := some deltaText }

/-- `extract_reasoning`: the reasoning and the content. -/
def extractReasoning (m : ThinkingTokens) (thinkingEnabled : Bool) (modelOutput : Text) :
    Option Text × Option Text :=
  let modelOutput := stripStart m modelOutput
  if searchFrom modelOutput m.endToken 0 = none then
    if thinkingEnabled = false then (none, some modelOutput) else (some modelOutput, none)
  else
    let parts := partition modelOutput m.endToken
    (some parts.1, orNone parts.2.2)

end Qwen3ReasoningParser

/-! ## Streams -/

/-- The text of tokens. -/
def textOf (tokenText : TokenId → Text) (tokens : List TokenId) : Text := tokens.flatMap tokenText

/-- `extract_reasoning_streaming` of a parser. -/
abbrev StreamingParser := Text → List TokenId → List TokenId → Option DeltaMessage

/-- The messages of a stream of deltas, behind previous tokens. -/
def streamFrom (parser : StreamingParser) (tokenText : TokenId → Text) :
    List TokenId → List (List TokenId) → List (Option DeltaMessage)
  | _, [] => []
  | previous, delta :: deltas => parser (textOf tokenText delta) previous delta ::
      streamFrom parser tokenText (previous ++ delta) deltas

/-- The reasoning and the content of a message, where nothing is no text. -/
def fieldsOf (message : Option DeltaMessage) : Text × Text :=
  match message with
  | none => ([], [])
  | some message => (message.reasoning.getD [], message.content.getD [])

/-- The reasoning fields of messages, and the content fields. -/
def concatenated (messages : List (Option DeltaMessage)) : Text × Text :=
  (messages.flatMap fun message => (fieldsOf message).1,
    messages.flatMap fun message => (fieldsOf message).2)

/-- The fields that a stream of deltas gives are the parts that the whole text gives. -/
def StreamsAs (parser : StreamingParser) (oneShot : Text → Option Text × Option Text)
    (tokenText : TokenId → Text) (deltas : List (List TokenId)) : Prop :=
  concatenated (streamFrom parser tokenText [] deltas)
    = ((oneShot (textOf tokenText deltas.flatten)).1.getD [],
      (oneShot (textOf tokenText deltas.flatten)).2.getD [])

/-- In the text of an output, the markers stand only where their tokens do, and the end marker at
most once. -/
structure MarkedOutput (m : ThinkingTokens) (tokenText : TokenId → Text) (tokens : List TokenId) :
    Prop where
  startToken : m.startToken ≠ []
  endToken : m.endToken ≠ []
  ids : m.startTokenId ≠ m.endTokenId
  startText : tokenText m.startTokenId = m.startToken
  endText : tokenText m.endTokenId = m.endToken
  atMostOnce : tokens.count m.endTokenId ≤ 1
  startOccurs : ∀ i, Occurs m.startToken (textOf tokenText tokens) i →
    ∃ k, tokens[k]? = some m.startTokenId ∧ i = (textOf tokenText (tokens.take k)).length
  endOccurs : ∀ i, Occurs m.endToken (textOf tokenText tokens) i →
    ∃ k, tokens[k]? = some m.endTokenId ∧ i = (textOf tokenText (tokens.take k)).length

end Vllm.Frontend

import DotRunner.Llm.AnthropicRequest
import DotRunner.Llm.GeminiRequest
import DotRunner.Llm.OpenAICompatRequest
import DotRunner.Llm.OpenAIRequest
import DotRunner.Py.Ascii

/-!
# Silent drops

Which requests do the four adapters translate whole, or else refuse?
-/

namespace DotRunner
namespace Llm

open Py Gathering

inductive Provider where
  | anthropic
  | openai
  | openaiCompat
  | gemini
deriving DecidableEq

section Drops

variable [Runtime]

/-- The adapter refuses the request, or its payload has every part once and in order. -/
def NothingDropped : Provider → Request → Prop
  | .anthropic => Anthropic.NothingDropped
  | .openai => OpenAI.NothingDropped
  | .openaiCompat => OpenAICompat.NothingDropped
  | .gemini => Gemini.NothingDropped

/-- The first part or message that stops the translation is one that is refused, or
each of them has a form that goes out.  Anthropic refuses JSON without a schema
after the messages, whatever has been dropped of them. -/
def GetsThrough : Provider → Request → Prop
  | .anthropic, request => Settled (Anthropic.fates request.messages) ∨
    Anthropic.asksForJson request = true ∧
      (Anthropic.fates request.messages).find? Fate.stops ≠ some .crashed
  | .openai, request => Settled (OpenAI.fates request.messages)
  | .openaiCompat, request => Settled (request.messages.map OpenAICompat.messageFate)
  | .gemini, request => Settled (Gemini.fates request.messages)

end Drops

section Demo

open Py.Ascii

def answerTo (id text : String) : ContentPart where
  kind := .toolResult
  toolResult := some { toolCallId := id, content := .str text }

/-- Two calls are answered in one message. -/
def twoAnswers : Request where
  messages := [⟨.tool, [answerTo "a" "1", answerTo "b" "2"], none, none⟩]

end Demo

end Llm
end DotRunner

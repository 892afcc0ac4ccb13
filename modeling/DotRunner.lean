import DotRunner.Engine.Budgets
import DotRunner.Engine.ResumeAgreement
import DotRunner.Engine.GoalGates
import DotRunner.Nested.Subgraph
import DotRunner.Nested.Branches
import DotRunner.Nested.Meeting
import DotRunner.Nested.Once
import DotRunner.Nested.Termination
import DotRunner.Dot.Attributes
import DotRunner.Dot.Layout
import DotRunner.Dot.Literals
import DotRunner.Dot.Pieces
import DotRunner.Dot.Precedence
import DotRunner.Dot.QuotedTokens
import DotRunner.Dot.QuotedValues
import DotRunner.Dot.Structure
import DotRunner.Engine.Accepted
import DotRunner.Engine.Artifacts
import DotRunner.Engine.Calls
import DotRunner.Engine.Restoring
import DotRunner.Engine.Vouched
import DotRunner.Nested.Artifacts
import DotRunner.Dot.Comments
import DotRunner.Dot.Scoping
import DotRunner.EagerScan
import DotRunner.EdgeReference
import DotRunner.FailureEdges
import DotRunner.HandlerKinds
import DotRunner.Lint.DeadEdges
import DotRunner.Lint.Executable
import DotRunner.Lint.Reachability
import DotRunner.Engine.Durability
import DotRunner.Nested.Joining
import DotRunner.Nested.Verdicts
import DotRunner.StatusNeutral
import DotRunner.Llm.Accumulator
import DotRunner.Llm.Anthropic
import DotRunner.Llm.AnthropicAgreement
import DotRunner.Llm.Gemini
import DotRunner.Llm.OpenAI
import DotRunner.Llm.OpenAICompat
import DotRunner.Llm.Protocol
import DotRunner.Llm.ToolLoop
import DotRunner.Llm.GeminiRequest
import DotRunner.Llm.OpenAICompatRequest
import DotRunner.Llm.OpenAIRequest
import DotRunner.Llm.SilentDrops
import DotRunner.Agent.Completion
import DotRunner.Agent.Executions
import DotRunner.Agent.Lifecycle
import DotRunner.Agent.Pairing
import DotRunner.Agent.UnifiedAdapter
import DotRunner.Dot.Parameters
import DotRunner.Dot.Transforms
import DotRunner.Runner.Resume
import DotRunner.Nested.Supervision
import DotRunner.Nested.TwoWalks
import DotRunner.Py.Sha1
import DotRunner.Py.Utf8
import DotRunner.Remote.BlobCache
import DotRunner.Remote.CacheIntegrity
import DotRunner.Llm.AnthropicThinking
import DotRunner.Llm.GeminiSchema
import DotRunner.Llm.StreamObject
import DotRunner.Llm.ThinkingAdmissible
import DotRunner.ParseOutcome
import DotRunner.Patch.AllOrNothing
import DotRunner.Patch.RoundTrip
import DotRunner.RetryContract
import DotRunner.Worker.AmplifierAgent
import DotRunner.Worker.Finalisation
import DotRunner.Dot.ParamTokens
import DotRunner.FailedStep
import DotRunner.Freshness
import DotRunner.Patch.Move
import DotRunner.Transcripts
import DotRunner.Components
import DotRunner.Lint.Cycles
import DotRunner.Dot.Cascade
import DotRunner.HumanGate
import DotRunner.Patch.InOrder
import DotRunner.Runner.ParseSites
import DotRunner.Agent.LoopDetection
import DotRunner.Agent.Truncation
import DotRunner.ArtifactMap
import DotRunner.Nested.ChildDirs
import DotRunner.Observability.Aggregator
import DotRunner.Observability.Attribution
import DotRunner.Py.Sub
import DotRunner.Remote.Materialize
import DotRunner.Remote.WalkLimits
import DotRunner.Backend
import DotRunner.Dot.Grammar
import DotRunner.Dot.Rendered
import DotRunner.Lint.CycleExits
import DotRunner.Llm.Retries
import DotRunner.Observability.Assignments
import DotRunner.Observability.Redacted

import Wasm.Event.Recorder
import Wasm.Tree.Agreement
import Wasm.Main
import Wasm.Proofs.Outcome
import Wasm.Proofs.Typing.Judgement
import Wasm.Proofs.Typing.Signature
import Wasm.Proofs.Delivery
import Wasm.Proofs.Typing.Bodies
import Wasm.Proofs.Typing.Constants
import Wasm.Proofs.Validator.Declared
import Wasm.Proofs.Validator.Items
import Wasm.Proofs.Validator.Modules
import Wasm.Proofs.Binary.Producing
import Wasm.Proofs.Validator.Agreement
import Wasm.Proofs.Encoding.Declarations
import Wasm.Proofs.Encoding.Modules
import Wasm.Proofs.Typing.Moves
import Wasm.Proofs.Typing.Rules
import Wasm.Proofs.Typing.Strictness
import Wasm.Proofs.Typing.Heights
import Wasm.Proofs.Binary.Yields
import Wasm.Proofs.Binary.Conduct
import Wasm.Proofs.Binary.Independence
import Wasm.Proofs.Binary.Following
import Wasm.Proofs.Validator.Conformance
import Wasm.Proofs.Validator.Projection
import Wasm.Proofs.Event.Attempts
import Wasm.Proofs.Event.Forwarding
import Wasm.Proofs.Validator.Effects
import Wasm.Proofs.Validator.Succession
import Wasm.Proofs.Validator.Integrity
import Wasm.Proofs.Binary.Integers
import Wasm.Proofs.Binary.Words
import Wasm.Proofs.Binary.Grammar
import Wasm.Proofs.Binary.Framing
import Wasm.Proofs.Validator.Transparency
import Wasm.Proofs.Typing.Immediates
import Wasm.Proofs.Typing.References
import Wasm.Proofs.Typing.Locals
import Wasm.Proofs.Typing.BranchTables
import Wasm.Proofs.Encoding.RoundTrip
import Wasm.Proofs.Typing.Growth
import Wasm.Proofs.Validator.Growth
import Wasm.Proofs.Typing.Isolation
import Wasm.Proofs.Validator.Brackets
import Wasm.Proofs.Tree.Rebuilding
import Wasm.Proofs.Binary.Delimiting
import Wasm.Proofs.Binary.Streaming
import Wasm.Proofs.Validator.Nameless
import Wasm.Proofs.Binary.Reaching
import Wasm.Proofs.Validator.Naming
import Wasm.Proofs.Binary.Credits
import Wasm.Proofs.Binary.Journeys
import Wasm.Proofs.Binary.Costs
import Wasm.Proofs.Binary.Ending
import Wasm.Proofs.Typing.Operations

import ScriptStore.Proofs.Codec.Truncation
import ScriptStore.Proofs.Config.Adopting
import ScriptStore.Proofs.Config.Checking
import ScriptStore.Proofs.Config.Converting
import ScriptStore.Proofs.Config.RoundTrip
import ScriptStore.Proofs.Config.SavedComments
import ScriptStore.Proofs.Config.Separators
import ScriptStore.Proofs.Storage.Replacing
import ScriptStore.Proofs.Store.Failing
import ScriptStore.Proofs.Store.SavingAll
import ScriptStore.Proofs.Timespan
import ScriptStore.Proofs.Types.Conversion
import ScriptStore.Proofs.Types.Narrowing
import ScriptStore.Proofs.Types.Nearest
import ScriptStore.Proofs.Types.Parsing
import ScriptStore.Proofs.Types.Quoting
import ScriptStore.Proofs.Types.Trails
import ScriptStore.Proofs.Variables.NumberOrder
import ScriptStore.Proofs.Variables.Pruning
import ScriptStore.Store.Definition
import ScriptStore.Types.Option
import ScriptStore.Types.Rendering

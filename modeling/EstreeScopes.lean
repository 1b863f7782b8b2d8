import EstreeScopes.Main
import EstreeScopes.Proofs.Entered
import EstreeScopes.Proofs.Frames
import EstreeScopes.Proofs.Resolution
import EstreeScopes.Walk.Script
import EstreeScopes.Proofs.Interception
import EstreeScopes.Proofs.Globals
import EstreeScopes.Proofs.FirstFault
import EstreeScopes.Proofs.Numbers
import EstreeScopes.Proofs.PatternNames
import EstreeScopes.Proofs.ReadBack
import EstreeScopes.Proofs.Boundaries
import EstreeScopes.Proofs.Canonical
import EstreeScopes.Proofs.Descending
import EstreeScopes.Proofs.Accounts
import EstreeScopes.Proofs.Search
import EstreeScopes.Proofs.FieldOrder
import EstreeScopes.Proofs.UnreportedBindings
import EstreeScopes.Proofs.SourceOrder
import EstreeScopes.Proofs.Acceptance
import EstreeScopes.Proofs.ScopeForest
import EstreeScopes.Proofs.PatternSyntax
import EstreeScopes.Proofs.Decoding
import EstreeScopes.Proofs.Nesting
import EstreeScopes.Proofs.FrameStack
import EstreeScopes.Proofs.ByteOrder
import EstreeScopes.Proofs.NearestConfig
import EstreeScopes.Proofs.TreeFiles
import EstreeScopes.Proofs.PathComponents
import EstreeScopes.Proofs.DistinctKeys
import EstreeScopes.Proofs.MarkedTables
import EstreeScopes.Proofs.KeyWarnings
import EstreeScopes.Proofs.FieldMap
import EstreeScopes.Proofs.SlotBySlot

import RubyIndex.Main
import RubyIndex.Server.Tool
import RubyIndex.Proofs.AncestorLinearization
import RubyIndex.Proofs.FirstOccurrences
import RubyIndex.Proofs.MergedDeclarations
import RubyIndex.Proofs.DeclarationLog
import RubyIndex.Proofs.BlockReading
import RubyIndex.Proofs.NearestMethods
import RubyIndex.Proofs.EmptyReopening
import RubyIndex.Proofs.LintedAliases
import RubyIndex.Proofs.ReadNamespaces
import RubyIndex.Proofs.AcceptedTexts
import RubyIndex.Proofs.AvailableVersions
import RubyIndex.Proofs.NamespaceOwners
import RubyIndex.Proofs.ModuleSuperclasses
import RubyIndex.Proofs.InheritedLookup
import RubyIndex.Proofs.SelectedRules
import RubyIndex.Proofs.FaultIsolation
import RubyIndex.Proofs.OpaqueDocumentation
import RubyIndex.Proofs.FindingPlaces
import RubyIndex.Proofs.FileOrder
import RubyIndex.Proofs.ListedVersions
import RubyIndex.Proofs.EnclosingSuperclasses
import RubyIndex.Proofs.SingletonChain
import RubyIndex.Proofs.NestedReferences
import RubyIndex.Proofs.MixinOrder
import RubyIndex.Proofs.SelfExtension
import RubyIndex.Proofs.RenderedParameters
import RubyIndex.Proofs.DefinitionLines
import RubyIndex.Proofs.DeclaredDocumentation
import RubyIndex.Proofs.NarrowedCompletion
import RubyIndex.Proofs.RankedSearch
import RubyIndex.Proofs.SuperclassConflicts
import RubyIndex.Proofs.ReopenedVisibility
import RubyIndex.Proofs.ClosestVersions
import RubyIndex.Proofs.SharedDirectoryNames
import RubyIndex.Proofs.KeptEnds
import RubyIndex.Proofs.SuggestedFileNames
import RubyIndex.Proofs.TextLayout
import RubyIndex.Proofs.ClosedSuperclasses
import RubyIndex.Proofs.RepeatedModuleFunctions
import RubyIndex.Proofs.GainedAliases
import RubyIndex.Proofs.FollowedSuggestions

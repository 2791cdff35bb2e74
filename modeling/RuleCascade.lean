import RuleCascade.Discovery
import RuleCascade.Document.Schema
import RuleCascade.Proofs.HierarchicalResolution
import RuleCascade.Proofs.ReferencePaths
import RuleCascade.Resolver
import RuleCascade.Proofs.AliasTransparency
import RuleCascade.Proofs.ResolverHistory
import RuleCascade.Proofs.TruthfulErrors
import RuleCascade.Proofs.ClassScanning
import RuleCascade.Proofs.DeclaredRegistry
import RuleCascade.Proofs.DeclarationOrder
import RuleCascade.Proofs.NestedGroups
import RuleCascade.Proofs.GlobSearch
import RuleCascade.Proofs.AnyDepth
import RuleCascade.Proofs.WellFormedPatterns
import RuleCascade.Proofs.DirectoryPatterns
import RuleCascade.Proofs.LiteralPatterns
import RuleCascade.Proofs.WrittenConfiguration
import RuleCascade.Proofs.AgreeingAnswers
import RuleCascade.Proofs.FirstViolation
import RuleCascade.Proofs.Lineages
import RuleCascade.Proofs.AliasTargets
import RuleCascade.Proofs.CachedAnswers
import RuleCascade.Proofs.LanguageOverrides
import RuleCascade.Proofs.SettingForms
import RuleCascade.Proofs.KeyGrammar
import RuleCascade.Proofs.ReadBack
import RuleCascade.Proofs.WrittenDocuments
import RuleCascade.Proofs.PatternFaults
import RuleCascade.Proofs.WalkedChain

import TemplateModules.Main
import TemplateModules.Proofs.CommandLine.Changes
import TemplateModules.Proofs.CommandLine.Sessions
import TemplateModules.Proofs.CommandLine.Sources
import TemplateModules.Proofs.Loading.Independence
import TemplateModules.Proofs.Loading.Parallel
import TemplateModules.Proofs.Loading.References
import TemplateModules.Proofs.Loading.Sequence
import TemplateModules.Proofs.Module.Capture
import TemplateModules.Proofs.Module.ImportOrder
import TemplateModules.Proofs.Module.InlineMap
import TemplateModules.Proofs.Module.LocalNames
import TemplateModules.Proofs.Module.Readback
import TemplateModules.Proofs.Spec.Appended
import TemplateModules.Proofs.Spec.OnePass
import TemplateModules.Proofs.Spec.Numerals
import TemplateModules.Proofs.Spec.Refusals
import TemplateModules.Proofs.Spec.Scoping
import TemplateModules.Proofs.Template.Layout
import TemplateModules.Proofs.Template.Nesting
import TemplateModules.Proofs.Template.OffsetScan
import TemplateModules.Proofs.Template.Paths
import TemplateModules.Proofs.SourceMap.DigitLoop
import TemplateModules.Proofs.Config.Merged
import TemplateModules.Proofs.CommandLine.Collisions
import TemplateModules.Proofs.CommandLine.ArgumentOrder
import TemplateModules.Proofs.Source.Locate

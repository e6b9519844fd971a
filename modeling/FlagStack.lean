import FlagStack.Main
import FlagStack.Session
import FlagStack.Proofs.Tables
import FlagStack.Proofs.EntryIds
import FlagStack.Proofs.IssuedIds
import FlagStack.Proofs.LogicalIds
import FlagStack.Proofs.Registration
import FlagStack.Proofs.Definitions
import FlagStack.Proofs.SynthesisRun
import FlagStack.Proofs.SynthesisState
import FlagStack.Proofs.SynthesisVerdict
import FlagStack.Proofs.Decoding
import FlagStack.Proofs.Rendering
import FlagStack.Proofs.SynthesizedRecords
import FlagStack.Proofs.SynthesisEquation
import FlagStack.Proofs.ConfigEdits
import FlagStack.Proofs.TemplateContents
import FlagStack.Proofs.References
import FlagStack.Proofs.Reordering
import FlagStack.Proofs.CommandVerdicts
import FlagStack.Proofs.ReferenceClosure
import FlagStack.Proofs.SessionHistory
import FlagStack.Proofs.ConfigRoundTrip
import FlagStack.Proofs.ExposedArns
import FlagStack.Proofs.SessionHandles
import FlagStack.Proofs.SessionReferences
import FlagStack.Proofs.SessionOrder
import FlagStack.Proofs.SpelledScalars
import FlagStack.Proofs.SkippedSpellings
import FlagStack.Proofs.ExactReaders
import FlagStack.Proofs.Meanings
import FlagStack.Proofs.ExactShapes
import FlagStack.Proofs.RespelledConfigs
import FlagStack.Proofs.SpelledTexts
import FlagStack.Proofs.ResourceNames
import FlagStack.Proofs.DanglingReports
import FlagStack.Proofs.FaithfulTemplates
import FlagStack.Proofs.ImportedNames
import FlagStack.Proofs.AddedDefinitions
import FlagStack.Proofs.TypedVariations
import FlagStack.Proofs.LoadedConfigs
import FlagStack.Proofs.TemplateSources
import FlagStack.Proofs.IssuedKeys
import FlagStack.Proofs.IdSearch

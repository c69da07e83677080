import FontCompiler.Number.Double
import FontCompiler.Charstring.Compile
import FontCompiler.Bez.Encode
import FontCompiler.Bez.Decode
import FontCompiler.Feature.Text
import FontCompiler.Layout.Run
import FontCompiler.Proofs.Collection.Sorting
import FontCompiler.Proofs.Font.Cycle
import FontCompiler.Proofs.Font.Rearranged
import FontCompiler.Proofs.Charstring.Execution
import FontCompiler.Proofs.Charstring.Decoding
import FontCompiler.Proofs.Outline.Decomposition
import FontCompiler.Proofs.Charstring.HiddenCycle
import FontCompiler.Proofs.Bez.RoundTrip
import FontCompiler.Proofs.Feature.Meaning
import FontCompiler.Proofs.Feature.Name
import FontCompiler.Proofs.Feature.NewNames
import FontCompiler.Proofs.Feature.Walk
import FontCompiler.Proofs.Feature.Contribution
import FontCompiler.Proofs.Feature.Coherence
import FontCompiler.Proofs.Kerning.Groups
import FontCompiler.Proofs.Kerning.Order
import FontCompiler.Proofs.Kerning.Splitting
import FontCompiler.Proofs.Kerning.Precedence
import FontCompiler.Proofs.Kerning.Canonical
import FontCompiler.Proofs.Kerning.ClassNames
import FontCompiler.Proofs.Kerning.Drafting
import FontCompiler.Proofs.Kerning.Written
import FontCompiler.Proofs.Kerning.Directions
import FontCompiler.Proofs.Kerning.Registration
import FontCompiler.Proofs.Kerning.Contribution
import FontCompiler.Proofs.Kerning.NewClasses
import FontCompiler.Proofs.Kerning.Additions
import FontCompiler.Proofs.Kerning.SameMarks
import FontCompiler.Proofs.Kerning.Agreement
import FontCompiler.Proofs.Kerning.Standing
import FontCompiler.Proofs.Attachment.MarkPlan
import FontCompiler.Proofs.Attachment.MarkDrafting
import FontCompiler.Proofs.Attachment.MarkAdditions
import FontCompiler.Proofs.Attachment.CursivePlan
import FontCompiler.Proofs.Attachment.Agreement
import FontCompiler.Proofs.Layout.Maker
import FontCompiler.Proofs.Layout.Contribution
import FontCompiler.Proofs.Layout.Alike
import FontCompiler.Proofs.Layout.Idempotence
import FontCompiler.Proofs.Layout.Commutation
import FontCompiler.Proofs.Layout.Coherence
import FontCompiler.Proofs.Layout.Rearranged
import FontCompiler.Proofs.Layout.Hidden
import FontCompiler.Proofs.Layout.Frame
import FontCompiler.Proofs.Substitution.Derivation
import FontCompiler.Proofs.Outline.Postponed
import FontCompiler.Proofs.Outline.Transformed
import FontCompiler.Proofs.Outline.NameStack
import FontCompiler.Proofs.Layout.Definitions
import FontCompiler.Proofs.Number.HalfInteger
import FontCompiler.Proofs.Bez.Canonical
import FontCompiler.Proofs.Bez.EmptySubpath
import FontCompiler.Proofs.Bez.Faults
import FontCompiler.Proofs.Bez.Uninterpreted
import FontCompiler.Proofs.Collection.Classes
import FontCompiler.Proofs.Kerning.Fragments
import FontCompiler.Proofs.Kerning.RepeatedPairs
import FontCompiler.Proofs.Kerning.GroupMembers
import FontCompiler.Proofs.Kerning.Sections
import FontCompiler.Proofs.Attachment.AnchorNames
import FontCompiler.Proofs.Attachment.Carriers
import FontCompiler.Proofs.Attachment.MarkPlaces
import FontCompiler.Proofs.Attachment.MarkLookups
import FontCompiler.Proofs.Attachment.Attached
import FontCompiler.Proofs.Attachment.LigatureParts
import FontCompiler.Proofs.Attachment.CursiveLookups
import FontCompiler.Proofs.Outline.SegmentCycle
import FontCompiler.Proofs.Font.CharacterMap
import FontCompiler.Proofs.Font.History
import FontCompiler.Proofs.Feature.Preorder
import FontCompiler.Proofs.Feature.GivenNames
import FontCompiler.Proofs.Unicode.RangeLookup
import FontCompiler.Proofs.Unicode.LayoutTags
import FontCompiler.Proofs.Number.Grid

import PackedStruct.Main
import PackedStruct.Proofs.Unpack
import PackedStruct.Proofs.Addressed
import PackedStruct.Proofs.Truncation
import PackedStruct.Proofs.Offsets
import PackedStruct.Proofs.Leaves
import PackedStruct.Proofs.Packing
import PackedStruct.Proofs.Range
import PackedStruct.Proofs.Denotation
import PackedStruct.Proofs.Compilation
import PackedStruct.Proofs.Acceptance
import PackedStruct.Proofs.Layout
import PackedStruct.Proofs.PointerWidth
import PackedStruct.Proofs.Inlining
import PackedStruct.Proofs.Window
import PackedStruct.Proofs.TypeText
import PackedStruct.Proofs.Termination
import PackedStruct.Proofs.Locality
import PackedStruct.Proofs.JsonView
import PackedStruct.Proofs.FormatGrammar
import PackedStruct.Proofs.FormatText
import PackedStruct.Proofs.IntegerText
import PackedStruct.Proofs.Overlay
import PackedStruct.Proofs.SchemaShape
import PackedStruct.Proofs.FlagNames
import PackedStruct.Proofs.FlagText
import PackedStruct.Proofs.Alignment
import PackedStruct.Proofs.Fallback
import PackedStruct.Proofs.DecimalText
import PackedStruct.Proofs.Quotient
import PackedStruct.Proofs.Significant
import PackedStruct.Proofs.GeneralText
import PackedStruct.Proofs.DigitLimit
import PackedStruct.Proofs.Nearest
import PackedStruct.Proofs.Shortest
import PackedStruct.Proofs.FloatHint
import PackedStruct.Proofs.Separators
import PackedStruct.Proofs.FloatGroups
import PackedStruct.Proofs.Outline
import PackedStruct.Proofs.RowText
import PackedStruct.Proofs.DeclarationText
import PackedStruct.Proofs.IntegerGrammar
